import ScriptGraph.Proofs.Graph.Agreement
import ScriptGraph.Proofs.Sites.SharedStarts

/-!
# Sites that share a record

A record counts the sites with one name whose targets are declared at one place: in the same file,
at the same offset of it. It shows what the first of them binds to. All of them bind to
declarations that start where the shown one does, or all of them to none; but two declarations may
start at one place if one of them is the first thing in the other one, as the only parameter of an
arrow function is.

- `Origin.Alike`: what the targets of such sites have in common
- `CallRecord.ShowsFirst`: a record shows the first site that it counts
- `Analysis.sites_of_record`: the sites of a record
- `Analysis.exists_other_declaration`: they need not bind to the same declaration
-/

namespace ScriptGraph

open Binding Syntax Inference Sites

/-! ## Origins at one place -/

/-- What two targets have in common that records do not tell apart. In the analysed file they are
declarations that start at the same position; and of two constructs of the file one stands at the
very start of the other one, or both are in one statement. -/
structure Origin.Alike (s : Source) (a b : Origin) : Prop where
  fileName_eq : a.location.fileName = b.location.fileName
  offset_eq : a.location.offset = b.location.offset
  isExternal_eq : a.isExternal = b.isExternal
  declared : a.location.fileName = s.fileName → ∃ c d : Declaration, c.source = s ∧ d.source = s ∧
    a.location = c.location ∧ b.location = d.location ∧
      a.location.range.start = b.location.range.start ∧
      (c.IsConstructIn s → d.IsConstructIn s → c.Meets d)

namespace CallRecord

variable {s : Source} {markers : List Json} {one other : CallRecord}

/-- What is located in the analysed file has been declared there. -/
theorem Located.exists_declaration (h : one.Located s) {o : Origin} (ho : one.origin = some o)
    (hfile : o.location.fileName = s.fileName) :
    ∃ d : Declaration, d.source = s ∧ o.location = d.location := by
  obtain ⟨d, hd, hl⟩ := h o ho
  have hname : d.location.fileName = d.source.fileName := (Graph.location_start d).1
  exact ⟨d, hd (hname.symm.trans (hl ▸ hfile)), hl⟩

/-- Single records with the same key bind to declarations that start at the same place, or both to
none. -/
theorem alike_of_key_eq (hone : one.Located s) (hother : other.Located s)
    (hsingle : SingleRecord markers one) (hsingle' : SingleRecord markers other)
    (hkey : one.key = other.key) :
    one.callee = other.callee ∧ Option.Rel (Origin.Alike s) one.origin other.origin := by
  obtain ⟨hcallee, hplace⟩ := Prod.mk.inj hkey
  refine ⟨hcallee, ?_⟩
  -- The second part of a key is a place, or nothing if the call is not resolved.
  cases ha : one.origin with
  | none =>
    rw [ha] at hplace
    rw [Option.map_eq_none_iff.mp hplace.symm]
    exact .none
  | some a =>
    rw [ha] at hplace
    obtain ⟨b, hb, hsame⟩ := Option.map_eq_some_iff.mp hplace.symm
    obtain ⟨hfile, hoffset⟩ := Prod.mk.inj hsame
    rw [hb]
    refine .some ⟨hfile.symm, hoffset.symm, ?_, fun hhere => ?_⟩
    -- Whether a file is external is decided by its name.
    · have hexternal := (hsingle.2 a ha).symm
      rw [← hfile, hsingle'.2 b hb] at hexternal
      exact (Option.some.inj hexternal).symm ▸ rfl
    -- Within the file both are declared there, and their first bytes are counted the same.
    · obtain ⟨c, hc, hac⟩ := hone.exists_declaration ha hhere
      obtain ⟨d, hd, hbd⟩ := hother.exists_declaration hb (hfile.trans hhere)
      obtain ⟨hstart, hunits⟩ := (hone a ha).start hhere
      obtain ⟨hstart', hunits'⟩ := (hother b hb).start (hfile.trans hhere)
      have hsame : c.location.offset = d.location.offset := by
        rw [← hac, ← hbd]
        exact hoffset.symm
      exact ⟨c, d, hc, hd, hac, hbd,
        hstart.eq_of_offsetOf_eq hstart' (hunits.symm.trans (hoffset.symm.trans hunits')),
        fun hc hd => Declaration.meets_of_firstByte_eq hc hd
          (Declaration.firstByte_eq_of_offset_eq hc hd hsame)⟩

/-! ## The first site of a record -/

/-- Each record of a tally shows the name and the origin of the first record with its key. -/
def ShowsFirst (sites records : List CallRecord) : Prop :=
  ∀ x ∈ records, ∃ r, sites.find? (fun one => one.key = x.key) = some r ∧
    x = { r with count := x.count }

/-- One more site leaves the first name that was shown for each key. -/
theorem ShowsFirst.tally {sites records : List CallRecord} (h : ShowsFirst sites records)
    (hcounts : Counts sites records) (r : CallRecord) :
    ShowsFirst (sites ++ [r]) (tally r records) := by
  intro x hx
  rcases mem_tally hcounts.keys_nodup hx with ⟨hmem, -⟩ | ⟨y, hy, -, rfl⟩ | ⟨hnew, rfl⟩
  -- What has been found stays the first; a new key has not come up before.
  · obtain ⟨first, hfirst, hx⟩ := h x hmem
    exact ⟨first, by rw [List.find?_append, hfirst]; rfl, hx⟩
  · obtain ⟨first, hfirst, hy⟩ := h y hy
    have hkey : ({ y with count := y.count + r.count } : CallRecord).key = y.key := rfl
    refine ⟨first, by rw [hkey, List.find?_append, hfirst]; rfl, ?_⟩
    rw [hy]
  · have hnone : sites.find? (fun one => one.key = x.key) = none :=
      List.find?_eq_none.mpr fun one hone => by simpa using hcounts.key_ne_of_new hnew one hone
    exact ⟨x, by rw [List.find?_append, hnone]; simp, rfl⟩

/-- Any number of sites, counted one by one, leaves the first names. -/
theorem ShowsFirst.foldl {new sites records : List CallRecord} (h : ShowsFirst sites records)
    (hcounts : Counts sites records) (hnew : ∀ r ∈ new, r.count = 1) :
    ShowsFirst (sites ++ new) (new.foldl (fun acc r => CallRecord.tally r acc) records) := by
  induction new generalizing sites records with
  | nil => rwa [List.append_nil]
  | cons r rest ih =>
    have hrest := ih (h.tally hcounts r) (hcounts.tally (hnew r List.mem_cons_self))
      fun d hd => hnew d (List.mem_cons_of_mem _ hd)
    rwa [List.append_assoc] at hrest

end CallRecord

namespace Analysis

variable (settings : Settings) (disk : Disk)

/-- The record of a site is that of a single call, flagged by the markers. -/
theorem single_siteRecords (library : Library) (s : Source) {p : Node × CallRecord}
    (hp : p ∈ siteRecords settings disk library s) :
    SingleRecord settings.externalMarkers p.2 :=
  (Inquiry.Yields.mapM (siteRecord_yields settings.externalMarkers) (countedSites s) _ _).2 p hp

/-- A record counts the sites with its key and shows what the first of them binds to. Any two of
them have the same name, and they bind to declarations that start at the same place of the same
file or both to none. In the analysed file these can only be different constructs if one of them is
what the other one starts with, or both are in one statement. -/
theorem sites_of_record {library s : Source} (hname : s.fileName ≠ library.fileName)
    {r : CallRecord} (hr : r ∈ records settings disk (.ofSource library) s) :
    let single := siteRecords settings disk (.ofSource library) s
    (r.count = single.countP fun p => p.2.key = r.key) ∧
      (∃ p, single.find? (fun p => p.2.key = r.key) = some p ∧
        r.callee = p.2.callee ∧ r.origin = p.2.origin) ∧
      ∀ p ∈ single, p.2.key = r.key → ∀ q ∈ single, q.2.key = r.key →
        p.2.callee = q.2.callee ∧ Option.Rel (Origin.Alike s) p.2.origin q.2.origin := by
  intro single
  -- Every site is counted once before the sites are folded.
  have hsingle : ∀ one ∈ single.map Prod.snd, one.count = 1 := fun one hone => by
    obtain ⟨p, hp, rfl⟩ := List.mem_map.mp hone
    exact (single_siteRecords settings disk _ s hp).1
  have hrecords := records_eq settings disk (.ofSource library) s
  refine ⟨?_, ?_, fun p hp hpr q hq hqr => ?_⟩
  · have hcount := (CallRecord.Counts.nil.foldl hsingle).count_eq r (hrecords ▸ hr)
    rw [List.nil_append, CallRecord.occurrences, List.countP_map] at hcount
    exact hcount
  · have hfirst : CallRecord.ShowsFirst [] [] := List.forall_mem_nil _
    obtain ⟨one, hone, hshown⟩ := hfirst.foldl .nil hsingle r (hrecords ▸ hr)
    rw [List.nil_append, List.find?_map] at hone
    obtain ⟨p, hp, rfl⟩ := Option.map_eq_some_iff.mp hone
    exact ⟨p, hp, by rw [hshown], by rw [hshown]⟩
  · exact CallRecord.alike_of_key_eq (located_siteRecords settings disk hname hp)
      (located_siteRecords settings disk hname hq) (single_siteRecords settings disk _ s hp)
        (single_siteRecords settings disk _ s hq) (hpr.trans hqr.symm)

/-- A file with an arrow function that calls its parameter, both called by the same name. -/
def arrowSource : Source :=
  Source.ofText "/a.ts" "const x=x=>x();x()" .ts

/-- Both calls of that file go into one record, although they bind to different declarations. -/
theorem sites_of_record_arrow :
    let single := siteRecords {} {} (.ofSource default) arrowSource
    arrowSource.fileName ≠ (default : Source).fileName ∧
      ∃ r ∈ records {} {} (.ofSource default) arrowSource,
        ∃ p ∈ single, p.2.key = r.key ∧ ∃ q ∈ single, q.2.key = r.key ∧
          p.2.origin ≠ q.2.origin ∧ p.2.callee = q.2.callee ∧
            Option.Rel (Origin.Alike arrowSource) p.2.origin q.2.origin := by
  intro single
  have hname : arrowSource.fileName ≠ (default : Source).fileName := by decide
  have hrecord : ∃ r ∈ records {} {} (.ofSource default) arrowSource,
      ∃ p ∈ single, p.2.key = r.key ∧ ∃ q ∈ single, q.2.key = r.key ∧
        p.2.origin ≠ q.2.origin := by
    decide +kernel
  obtain ⟨r, hr, p, hp, hpr, q, hq, hqr, hne⟩ := hrecord
  exact ⟨hname, r, hr, p, hp, hpr, q, hq, hqr, hne,
    (sites_of_record {} {} hname hr).2.2 p hp hpr q hq hqr⟩

/-- An arrow function and its only parameter start at one place. A call of one and a call of the
other go into one record, which shows the parameter for both of them. -/
theorem exists_other_declaration :
    ∃ r ∈ records {} {} (.ofSource default) arrowSource, r.count = 2 ∧
      ∃ p ∈ siteRecords {} {} (.ofSource default) arrowSource, p.2.key = r.key ∧
        ∃ a ∈ r.origin, ∃ b ∈ p.2.origin, a.location.range.start = b.location.range.start ∧
          a.location.range.stop ≠ b.location.range.stop := by
  decide +kernel

end Analysis

end ScriptGraph
