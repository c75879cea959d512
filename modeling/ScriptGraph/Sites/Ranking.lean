import ScriptGraph.Graph.Basic
import ScriptGraph.Sites.Target
import ScriptGraph.Text.Clamp

/-!
# Ranked targets

Every call and construction of a file counts for its name and the place of the declaration it
binds to. The targets are ranked by count, of equal counts the one met first; only a limited
number is kept.
-/

namespace ScriptGraph

open Binding Syntax Inference

/-- Where the target of a call is declared. -/
structure Origin where
  location : Location
  isExternal : Bool
deriving DecidableEq, Repr

/-- A target and how often it is called or constructed. -/
structure CallRecord where
  callee : String
  count : Nat
  origin : Option Origin := none
deriving DecidableEq, Repr

namespace CallRecord

/-- The record as an object. -/
def toJson (r : CallRecord) : Json :=
  .object [("calleeName", .string r.callee), ("count", .nat r.count),
    ("declFile", .ofOption (r.origin.map (·.location.fileName))),
    ("declRange", (r.origin.map (·.location.range.toJson)).getD .null),
    ("isExternal", .bool ((r.origin.map (·.isExternal)).getD false))]

/-- What records are told apart by: the name, and the file and offset of the declaration. -/
def key (r : CallRecord) : String × Option (String × Nat) :=
  (r.callee, r.origin.map fun o => (o.location.fileName, o.location.offset))

/-- Counts a record: it adds to the one with the same key, or comes last. -/
def tally (record : CallRecord) : List CallRecord → List CallRecord
  | [] => [record]
  | r :: rest =>
    -- Keys do not repeat, so there is no other record to add to.
    if r.key = record.key then { r with count := r.count + record.count } :: rest
    else r :: tally record rest

/-- The records by count, of equal counts in the given order. -/
def ranked (records : List CallRecord) : List CallRecord :=
  records.mergeSort fun a b => b.count ≤ a.count

end CallRecord

namespace Sites

/-- Whether a node is a call or construction; tagged templates do not count as calls. -/
def isCounted (n : Node) : Bool :=
  (n.is .callExpression && !isTagged n) || n.is .newExpression

/-- The role of what a site calls or constructs. -/
def siteRole (n : Node) : Field :=
  if n.is .callExpression then .callee else .constructed

/-- What the name of a site begins with. -/
def siteWord (n : Node) : String :=
  if n.is .callExpression then "" else "new "

/-- The name of a site: that of the expression in a role, or the text of the whole site. -/
def siteName (n : Node) (role : Field) (name : Node → Inquiry String) : Inquiry String :=
  match n.child? role with
  | some target => name target
  | none => return n.text

/-- How sites are read: what they call or construct is named, what they bind to is looked up, and
the place of a declaration is told. Each of these may fail. -/
structure Reading (m : Type → Type) where
  calleeName : Node → m (Option String)
  constructedName : Node → m (Option String)
  called : Node → m (Option (Option Declaration))
  constructed : Node → m (Option (Option Declaration))
  locate : Declaration → Option Location
  isExternal : String → Option Bool

namespace Reading

variable {m : Type → Type} [Monad m] (reading : Reading m)

/-- The attempt to name what a site calls or constructs. -/
def naming (n : Node) : Node → m (Option String) :=
  if n.is .callExpression then reading.calleeName else reading.constructedName

/-- The attempt to find the declaration that a site binds to, if there is one. -/
def target (n : Node) : m (Option (Option Declaration)) :=
  if n.is .callExpression then reading.called n else reading.constructed n

/-- The name under which a site counts. What cannot be named goes by its text, and so does a site
that lacks it. -/
def nameOf (n : Node) : m String := do
  match n.child? (siteRole n) with
  | some named => return siteWord n ++ (← reading.naming n named).getD named.text
  | none => return siteWord n ++ n.text

/-- The origin of a declaration. -/
def originOf (d : Declaration) : Option Origin := do
  let location ← reading.locate d
  return ⟨location, ← reading.isExternal location.fileName⟩

/-- The record of one call or construction. A site that fails to bind to a place has no origin. -/
def record (n : Node) : m CallRecord := do
  let callee ← reading.nameOf n
  let found ← reading.target n
  return { callee, count := 1, origin := found.join.bind reading.originOf }

/-- Counts a call or construction. -/
def count (records : List CallRecord) (n : Node) : m (List CallRecord) := do
  return (← reading.record n).tally records

/-- Counts the sites of a file by target. -/
def tallied (s : Source) : m (List CallRecord) :=
  (s.root.preorder.filter isCounted).foldlM reading.count []

/-- The most frequent targets of a file, at most as many as a limit allows. There is no answer when
the limit is no number. -/
def ranked (limit : Json) (s : Source) : m (Option (List CallRecord)) := do
  let records := CallRecord.ranked (← reading.tallied s)
  return limit.asIndex.map fun n => takeSigned n records

end Reading

/-- The declaration of a target, if it has one. -/
def declared (target : Target) : Inquiry (Option Declaration) :=
  match target.declaration with
  | none => return none
  | some id => some <$> declarationOf id

/-- How inference reads sites. It always has an answer; a file cannot be told external or not when
a marker that is no text is met. -/
def inferred (markers : List Json) : Reading Inquiry where
  calleeName n := some <$> calleeName n
  constructedName n := some <$> constructedName n
  called n := do return some (← declared (← callTarget n))
  constructed n := do return some (← declared (← constructTarget n))
  locate d := some d.location
  isExternal := Location.isExternal markers

/-- The record of one call or construction. -/
def siteRecord (markers : List Json) (n : Node) : Inquiry CallRecord :=
  (inferred markers).record n

/-- Counts the sites of a file by target. -/
def talliedCalls (markers : List Json) (s : Source) : Inquiry (List CallRecord) :=
  (inferred markers).tallied s

/-- The most frequent targets of a file, at most as many as the settings allow. There is no answer
when the settings give no number. -/
def rankedCalls (settings : Settings) (s : Source) : Inquiry (Option (List CallRecord)) :=
  (inferred settings.externalMarkers).ranked settings.maxCalls s

end Sites

end ScriptGraph
