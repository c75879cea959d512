/-!
# The ambient library text

The declarations of the standard objects that every file sees, in the typed dialect. Offsets into
this text show up in results, so each line stands here exactly as it counts.
-/

namespace ScriptGraph.Ambient

/-- The objects that literals belong to. -/
def coreLines : List String := [
    "// Standard-library surface visible to every analyzed file.",
    "// Kept intentionally small: enough for member calls on built-in values to",
    "// resolve to a declaration, a signature and a type.",
    "",
    "type PropertyKey = string | number | symbol;",
    "",
    "interface Object \x7b",
    "    toString(): string;",
    "    valueOf(): Object;",
    "    hasOwnProperty(v: PropertyKey): boolean;",
    "\x7d",
    "",
    "interface ObjectConstructor \x7b",
    "    (value?: any): any;",
    "    new (value?: any): Object;",
    "    keys(o: object): string[];",
    "    values(o: object): any[];",
    "    entries(o: object): [string, any][];",
    "    assign(target: object, ...sources: any[]): any;",
    "    freeze<T>(o: T): T;",
    "    create(o: object | null): any;",
    "    fromEntries(entries: [PropertyKey, any][]): any;",
    "    getPrototypeOf(o: any): any;",
    "    defineProperty(o: any, p: PropertyKey, attributes: any): any;",
    "\x7d",
    "",
    "declare var Object: ObjectConstructor;",
    "",
    "interface Function \x7b",
    "    apply(this: Function, thisArg: any, argArray?: any): any;",
    "    call(this: Function, thisArg: any, ...argArray: any[]): any;",
    "    bind(this: Function, thisArg: any, ...argArray: any[]): any;",
    "    toString(): string;",
    "    readonly name: string;",
    "    readonly length: number;",
    "\x7d",
    "",
    "interface String \x7b",
    "    readonly length: number;",
    "    charAt(pos: number): string;",
    "    charCodeAt(index: number): number;",
    "    concat(...strings: string[]): string;",
    "    indexOf(searchString: string, position?: number): number;",
    "    lastIndexOf(searchString: string, position?: number): number;",
    "    includes(searchString: string, position?: number): boolean;",
    "    startsWith(searchString: string, position?: number): boolean;",
    "    endsWith(searchString: string, endPosition?: number): boolean;",
    "    slice(start?: number, end?: number): string;",
    "    substring(start: number, end?: number): string;",
    "    split(separator: string | RegExp, limit?: number): string[];",
    "    replace(searchValue: string | RegExp, replaceValue: string): string;",
    "    replaceAll(searchValue: string | RegExp, replaceValue: string): string;",
    "    match(regexp: string | RegExp): RegExpMatchArray | null;",
    "    toUpperCase(): string;",
    "    toLowerCase(): string;",
    "    trim(): string;",
    "    trimStart(): string;",
    "    trimEnd(): string;",
    "    padStart(maxLength: number, fillString?: string): string;",
    "    padEnd(maxLength: number, fillString?: string): string;",
    "    repeat(count: number): string;",
    "\x7d",
    "",
    "interface StringConstructor \x7b",
    "    (value?: any): string;",
    "    new (value?: any): String;",
    "    fromCharCode(...codes: number[]): string;",
    "    raw(template: any, ...substitutions: any[]): string;",
    "\x7d",
    "",
    "declare var String: StringConstructor;",
    "",
    "interface Number \x7b",
    "    toFixed(fractionDigits?: number): string;",
    "    toPrecision(precision?: number): string;",
    "    toString(radix?: number): string;",
    "\x7d",
    "",
    "interface NumberConstructor \x7b",
    "    (value?: any): number;",
    "    new (value?: any): Number;",
    "    isInteger(number: unknown): boolean;",
    "    isFinite(number: unknown): boolean;",
    "    isNaN(number: unknown): boolean;",
    "    parseFloat(string: string): number;",
    "    parseInt(string: string, radix?: number): number;",
    "    readonly MAX_SAFE_INTEGER: number;",
    "    readonly MIN_SAFE_INTEGER: number;",
    "\x7d",
    "",
    "declare var Number: NumberConstructor;",
    "",
    "interface Boolean \x7b",
    "    valueOf(): boolean;",
    "\x7d",
    "",
    "interface BooleanConstructor \x7b",
    "    (value?: any): boolean;",
    "    new (value?: any): Boolean;",
    "\x7d",
    "",
    "declare var Boolean: BooleanConstructor;",
    "",
    "interface Array<T> \x7b",
    "    length: number;",
    "    push(...items: T[]): number;",
    "    pop(): T | undefined;",
    "    shift(): T | undefined;",
    "    unshift(...items: T[]): number;",
    "    concat(...items: T[]): T[];",
    "    join(separator?: string): string;",
    "    reverse(): T[];",
    "    slice(start?: number, end?: number): T[];",
    "    splice(start: number, deleteCount?: number, ...items: T[]): T[];",
    "    sort(compareFn?: (a: T, b: T) => number): T[];",
    "    indexOf(searchElement: T, fromIndex?: number): number;",
    "    includes(searchElement: T, fromIndex?: number): boolean;",
    "    find(predicate: (value: T, index: number, obj: T[]) => unknown): T | undefined;",
    "    findIndex(predicate: (value: T, index: number, obj: T[]) => unknown): number;",
    "    every(predicate: (value: T, index: number, array: T[]) => unknown): boolean;",
    "    some(predicate: (value: T, index: number, array: T[]) => unknown): boolean;",
    "    forEach(callbackfn: (value: T, index: number, array: T[]) => void): void;",
    "    map<U>(callbackfn: (value: T, index: number, array: T[]) => U): U[];",
    "    filter(predicate: (value: T, index: number, array: T[]) => unknown): T[];",
    "    reduce<U>(callbackfn: (previousValue: U, currentValue: T, currentIndex: number, array: T[]) => U, initialValue: U): U;",
    "    flat(depth?: number): any[];",
    "    fill(value: T, start?: number, end?: number): T[];",
    "    keys(): IterableIterator<number>;",
    "    entries(): IterableIterator<[number, T]>;",
    "\x7d",
    ""]

/-- Arrays, iteration and the console. -/
def collectionLines : List String := [
    "interface ArrayConstructor \x7b",
    "    (arrayLength?: number): any[];",
    "    new (arrayLength?: number): any[];",
    "    isArray(arg: any): boolean;",
    "    from<T>(arrayLike: ArrayLike<T> | Iterable<T>): T[];",
    "    of<T>(...items: T[]): T[];",
    "\x7d",
    "",
    "declare var Array: ArrayConstructor;",
    "",
    "interface ArrayLike<T> \x7b",
    "    readonly length: number;",
    "\x7d",
    "",
    "interface Iterable<T> \x7b",
    "    next(): IteratorResult<T>;",
    "\x7d",
    "",
    "interface IteratorResult<T> \x7b",
    "    done: boolean;",
    "    value: T;",
    "\x7d",
    "",
    "interface IterableIterator<T> \x7b",
    "    next(): IteratorResult<T>;",
    "\x7d",
    "",
    "interface RegExpMatchArray extends Array<string> \x7b",
    "    index: number;",
    "    input: string;",
    "\x7d",
    "",
    "interface RegExpExecArray extends Array<string> \x7b",
    "    index: number;",
    "    input: string;",
    "\x7d",
    "",
    "declare class RegExp \x7b",
    "    constructor(pattern: string | RegExp, flags?: string);",
    "    exec(string: string): RegExpExecArray | null;",
    "    test(string: string): boolean;",
    "    readonly source: string;",
    "    readonly flags: string;",
    "    lastIndex: number;",
    "\x7d",
    "",
    "interface Console \x7b",
    "    log(...data: any[]): void;",
    "    info(...data: any[]): void;",
    "    warn(...data: any[]): void;",
    "    error(...data: any[]): void;",
    "    debug(...data: any[]): void;",
    "    trace(...data: any[]): void;",
    "    table(tabularData?: any, properties?: string[]): void;",
    "    time(label?: string): void;",
    "    timeEnd(label?: string): void;",
    "    assert(condition?: boolean, ...data: any[]): void;",
    "\x7d",
    "",
    "declare var console: Console;",
    "",
    "interface JSON \x7b",
    "    parse(text: string, reviver?: (key: string, value: any) => any): any;",
    "    stringify(value: any, replacer?: (key: string, value: any) => any, space?: string | number): string;",
    "\x7d",
    "",
    "declare var JSON: JSON;",
    "",
    "interface Math \x7b",
    "    readonly E: number;",
    "    readonly PI: number;",
    "    abs(x: number): number;",
    "    ceil(x: number): number;",
    "    floor(x: number): number;",
    "    round(x: number): number;",
    "    trunc(x: number): number;",
    "    sign(x: number): number;",
    "    sqrt(x: number): number;",
    "    pow(x: number, y: number): number;",
    "    log(x: number): number;",
    "    exp(x: number): number;",
    "    max(...values: number[]): number;",
    "    min(...values: number[]): number;",
    "    random(): number;",
    "\x7d",
    ""]

/-- Promises, collections, errors, dates and global functions. -/
def serviceLines : List String := [
    "declare var Math: Math;",
    "",
    "declare class Promise<T> \x7b",
    "    constructor(executor: (resolve: (value: T) => void, reject: (reason?: any) => void) => void);",
    "    then<TResult>(onfulfilled?: (value: T) => TResult, onrejected?: (reason: any) => any): Promise<TResult>;",
    "    catch(onrejected?: (reason: any) => any): Promise<T>;",
    "    finally(onfinally?: () => void): Promise<T>;",
    "    static resolve<T>(value: T): Promise<T>;",
    "    static reject(reason?: any): Promise<never>;",
    "    static all<T>(values: T[]): Promise<T[]>;",
    "    static race<T>(values: T[]): Promise<T>;",
    "    static allSettled<T>(values: T[]): Promise<any[]>;",
    "\x7d",
    "",
    "declare class Map<K, V> \x7b",
    "    constructor(entries?: [K, V][] | null);",
    "    get(key: K): V | undefined;",
    "    set(key: K, value: V): this;",
    "    has(key: K): boolean;",
    "    delete(key: K): boolean;",
    "    clear(): void;",
    "    forEach(callbackfn: (value: V, key: K, map: Map<K, V>) => void): void;",
    "    keys(): IterableIterator<K>;",
    "    values(): IterableIterator<V>;",
    "    entries(): IterableIterator<[K, V]>;",
    "    readonly size: number;",
    "\x7d",
    "",
    "declare class Set<T> \x7b",
    "    constructor(values?: T[] | null);",
    "    add(value: T): this;",
    "    has(value: T): boolean;",
    "    delete(value: T): boolean;",
    "    clear(): void;",
    "    forEach(callbackfn: (value: T, value2: T, set: Set<T>) => void): void;",
    "    values(): IterableIterator<T>;",
    "    readonly size: number;",
    "\x7d",
    "",
    "declare class WeakMap<K, V> \x7b",
    "    constructor(entries?: [K, V][] | null);",
    "    get(key: K): V | undefined;",
    "    set(key: K, value: V): this;",
    "    has(key: K): boolean;",
    "    delete(key: K): boolean;",
    "\x7d",
    "",
    "declare class Error \x7b",
    "    constructor(message?: string);",
    "    name: string;",
    "    message: string;",
    "    stack?: string;",
    "\x7d",
    "",
    "declare class TypeError extends Error \x7b",
    "    constructor(message?: string);",
    "\x7d",
    "",
    "declare class RangeError extends Error \x7b",
    "    constructor(message?: string);",
    "\x7d",
    "",
    "declare class SyntaxError extends Error \x7b",
    "    constructor(message?: string);",
    "\x7d",
    "",
    "declare class ReferenceError extends Error \x7b",
    "    constructor(message?: string);",
    "\x7d",
    "",
    "declare class Date \x7b",
    "    constructor(value?: number | string | Date);",
    "    getTime(): number;",
    "    getFullYear(): number;",
    "    getMonth(): number;",
    "    getDate(): number;",
    "    getDay(): number;",
    "    getHours(): number;",
    "    getMinutes(): number;",
    "    getSeconds(): number;",
    "    toISOString(): string;",
    "    toJSON(): string;",
    "    toLocaleDateString(locales?: string): string;",
    "    static now(): number;",
    "    static parse(s: string): number;",
    "\x7d",
    "",
    "interface Response \x7b",
    "    readonly ok: boolean;",
    "    readonly status: number;",
    "    json(): Promise<any>;",
    "    text(): Promise<string>;",
    "\x7d",
    "",
    "declare function fetch(input: string, init?: any): Promise<Response>;",
    "declare function parseInt(string: string, radix?: number): number;",
    "declare function parseFloat(string: string): number;",
    "declare function isNaN(number: number): boolean;",
    "declare function isFinite(number: number): boolean;",
    "declare function encodeURIComponent(uriComponent: string): string;",
    "declare function decodeURIComponent(encodedURIComponent: string): string;",
    "declare function setTimeout(handler: (...args: any[]) => void, timeout?: number, ...args: any[]): number;",
    "declare function clearTimeout(id?: number): void;",
    "declare function setInterval(handler: (...args: any[]) => void, timeout?: number, ...args: any[]): number;",
    "declare function clearInterval(id?: number): void;",
    "declare function queueMicrotask(callback: () => void): void;",
    "declare function structuredClone<T>(value: T): T;",
    "declare function require(id: string): any;"]

/-- The whole text. -/
def text : String :=
  String.join ((coreLines ++ collectionLines ++ serviceLines).map fun line => line ++ "\n")

end ScriptGraph.Ambient
