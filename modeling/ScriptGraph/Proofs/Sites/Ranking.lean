import Mathlib.Algebra.GroupWithZero.Nat
import ScriptGraph.Proofs.Inference.Growth
import ScriptGraph.Sites.Ranking
import ScriptGraph.Syntax.Reader

/-!
# Calls are counted without loss

Every call and construction of a file is counted in the one record that has its key, and the
ranking only puts the records in order. That holds however the sites are read: a site that cannot
be named or does not bind to a place is counted all the same.

- `CallRecord.Counts`: what a tally knows of the records that went into it
- `CallRecord.ranked_pairwise`: the order of the ranking, which is stable
- `Sites.Reading.Tells`: what the record of one site tells when parts of the site cannot be read
- `Sites.Reading.ranked_conserves`: the records of a file and the ones that are kept
-/

namespace ScriptGraph

open Binding Syntax Inference

namespace CallRecord

/-- How often a key comes up among records. -/
def occurrences (key : String × Option (String × Nat)) (records : List CallRecord) : Nat :=
  records.countP fun r => r.key = key

/-- The place at which a key comes up first. -/
def firstPlace (key : String × Option (String × Nat)) (records : List CallRecord) : Nat :=
  records.findIdx fun r => r.key = key

/-- A tally of single records: it has one record for each key, counts how often the key comes up,
and lists the keys in the order in which they come up first. -/
structure Counts (sites records : List CallRecord) : Prop where
  keys_nodup : (records.map key).Nodup
  count_eq : ∀ r ∈ records, r.count = occurrences r.key sites
  key_mem : ∀ s ∈ sites, s.key ∈ records.map key
  first_lt : ∀ k ∈ records.map key, firstPlace k sites < sites.length
  ordered : (records.map key).Pairwise fun a b => firstPlace a sites < firstPlace b sites
  sum_eq : (records.map count).sum = sites.length

/-- No sites make no records. -/
theorem Counts.nil : Counts [] [] :=
  ⟨List.nodup_nil, nofun, nofun, nofun, .nil, rfl⟩

/-! ## Counting one more -/

/-- A site adds its key only if no record has it. -/
theorem map_key_tally (r : CallRecord) (records : List CallRecord) :
    (tally r records).map key =
      if r.key ∈ records.map key then records.map key else records.map key ++ [r.key] := by
  induction records with
  | nil => simp [tally]
  | cons a rest ih =>
    rw [tally]
    -- The record that has the key is the first one with it, or one of the rest.
    by_cases ha : a.key = r.key
    · rw [if_pos ha, if_pos (by simp [ha])]
      rfl
    · have ha' : r.key ≠ a.key := fun h => ha h.symm
      rw [if_neg ha, List.map_cons, ih]
      by_cases hr : r.key ∈ rest.map key
      · rw [if_pos hr, if_pos (by rw [List.map_cons]; exact List.mem_cons_of_mem _ hr)]
        rfl
      · rw [if_neg hr, if_neg (by rw [List.map_cons, List.mem_cons]; exact not_or.mpr ⟨ha', hr⟩)]
        rfl

/-- A record of a tally is one from before with another key, the one from before with the same key
and a higher count, or the new one. -/
theorem mem_tally {r x : CallRecord} {records : List CallRecord}
    (hnodup : (records.map key).Nodup) (hx : x ∈ tally r records) :
    (x ∈ records ∧ x.key ≠ r.key) ∨
      (∃ y ∈ records, y.key = r.key ∧ x = { y with count := y.count + r.count }) ∨
      (r.key ∉ records.map key ∧ x = r) := by
  induction records with
  | nil => exact .inr (.inr ⟨nofun, List.mem_singleton.mp hx⟩)
  | cons a rest ih =>
    rw [List.map_cons, List.nodup_cons] at hnodup
    rw [tally] at hx
    -- Keys differ, so no record after this one has its key.
    by_cases ha : a.key = r.key
    · rw [if_pos ha] at hx
      rcases List.mem_cons.mp hx with rfl | hx
      · exact .inr (.inl ⟨a, List.mem_cons_self, ha, rfl⟩)
      · refine .inl ⟨List.mem_cons_of_mem _ hx, fun h => hnodup.1 ?_⟩
        exact ha.trans h.symm ▸ List.mem_map_of_mem hx
    · rw [if_neg ha] at hx
      rcases List.mem_cons.mp hx with rfl | hx
      · exact .inl ⟨List.mem_cons_self, ha⟩
      · rcases ih hnodup.2 hx with ⟨hmem, hne⟩ | ⟨y, hy, hkey, rfl⟩ | ⟨hnew, rfl⟩
        · exact .inl ⟨List.mem_cons_of_mem _ hmem, hne⟩
        · exact .inr (.inl ⟨y, List.mem_cons_of_mem _ hy, hkey, rfl⟩)
        · refine .inr (.inr ⟨fun h => ?_, rfl⟩)
          rcases List.mem_cons.mp h with h | h
          · exact ha h.symm
          · exact hnew h

/-- Records keep the origin of the site that they were made for. -/
theorem origin_of_mem_tally {r x : CallRecord} {records : List CallRecord}
    (hx : x ∈ tally r records) : ∃ y ∈ r :: records, x.origin = y.origin := by
  -- By induction on the records, which are gone through up to the one with the key.
  induction records with
  | nil => exact ⟨x, hx, rfl⟩
  | cons a rest ih =>
    rw [tally] at hx
    split at hx
    · rcases List.mem_cons.mp hx with rfl | hx
      · exact ⟨a, List.mem_cons_of_mem _ List.mem_cons_self, rfl⟩
      · exact ⟨x, List.mem_cons_of_mem _ (List.mem_cons_of_mem _ hx), rfl⟩
    · rcases List.mem_cons.mp hx with rfl | hx
      · exact ⟨x, List.mem_cons_of_mem _ List.mem_cons_self, rfl⟩
      · obtain ⟨y, hy, horigin⟩ := ih hx
        refine ⟨y, ?_, horigin⟩
        rcases List.mem_cons.mp hy with rfl | hy
        · exact List.mem_cons_self
        · exact List.mem_cons_of_mem _ (List.mem_cons_of_mem _ hy)

/-- A site adds its count. -/
theorem sum_count_tally (r : CallRecord) (records : List CallRecord) :
    ((tally r records).map count).sum = (records.map count).sum + r.count := by
  induction records with
  | nil => simp [tally]
  | cons a rest ih =>
    rw [tally]
    split
    · simp only [List.map_cons, List.sum_cons]
      omega
    · simp only [List.map_cons, List.sum_cons, ih]
      omega

/-- One more site occurs once more under its own key. -/
theorem occurrences_append (key : String × Option (String × Nat)) (sites : List CallRecord)
    (r : CallRecord) :
    occurrences key (sites ++ [r]) = occurrences key sites + if r.key = key then 1 else 0 := by
  rw [occurrences, List.countP_append]
  by_cases h : r.key = key <;> simp [occurrences, h]

/-- A key that has come up keeps its first place. -/
theorem firstPlace_append {key : String × Option (String × Nat)} {sites : List CallRecord}
    (h : firstPlace key sites < sites.length) (r : CallRecord) :
    firstPlace key (sites ++ [r]) = firstPlace key sites := by
  rw [firstPlace, List.findIdx_append]
  exact if_pos h

/-- A key that is new comes first at the site that brings it. -/
theorem firstPlace_append_self {r : CallRecord} {sites : List CallRecord}
    (h : ∀ s ∈ sites, s.key ≠ r.key) : firstPlace r.key (sites ++ [r]) = sites.length := by
  have hnone : firstPlace r.key sites = sites.length :=
    List.findIdx_eq_length.mpr fun s hs => decide_eq_false (h s hs)
  have hself : [r].findIdx (fun s => decide (s.key = r.key)) = 0 := by simp
  unfold firstPlace at hnone ⊢
  rw [List.findIdx_append, if_neg (by rw [hnone]; exact Nat.lt_irrefl _), hself, Nat.zero_add]

/-- A key that no record has is the key of no site. -/
theorem Counts.key_ne_of_new {sites records : List CallRecord} (h : Counts sites records)
    {r : CallRecord} (hnew : r.key ∉ records.map key) : ∀ s ∈ sites, s.key ≠ r.key :=
  fun s hs heq => hnew (heq ▸ h.key_mem s hs)

/-- After one more single record each record of a tally still counts how often its key comes up. -/
theorem Counts.count_tally {sites records : List CallRecord} (h : Counts sites records)
    {r : CallRecord} (hr : r.count = 1) :
    ∀ x ∈ CallRecord.tally r records, x.count = occurrences x.key (sites ++ [r]) := by
  intro x hx
  rw [occurrences_append]
  rcases mem_tally h.keys_nodup hx with ⟨hmem, hne⟩ | ⟨y, hy, hkey, rfl⟩ | ⟨hnew, rfl⟩
  -- A record with another key, the one with the same key, and a new one, in this order.
  · rw [if_neg (Ne.symm hne), h.count_eq x hmem, Nat.add_zero]
  · show y.count + r.count = occurrences y.key sites + if r.key = y.key then 1 else 0
    rw [if_pos hkey.symm, h.count_eq y hy, hr]
  · have hzero : occurrences x.key sites = 0 :=
      List.countP_eq_zero.mpr fun s hs => by simpa using h.key_ne_of_new hnew s hs
    rw [hzero, if_pos rfl, hr]

/-- Counting a single record keeps a tally right. -/
theorem Counts.tally {sites records : List CallRecord} (h : Counts sites records)
    {r : CallRecord} (hr : r.count = 1) : Counts (sites ++ [r]) (tally r records) := by
  have hcount := h.count_tally hr
  have hkeys := map_key_tally r records
  have hsum : ((CallRecord.tally r records).map count).sum = (sites ++ [r]).length := by
    rw [sum_count_tally, h.sum_eq, hr, List.length_append, List.length_singleton]
  -- A known key changes no place; a new one comes after all the others.
  by_cases hknown : r.key ∈ records.map key
  · rw [if_pos hknown] at hkeys
    -- Every key has come up before, so all first places are as they were.
    refine ⟨hkeys ▸ h.keys_nodup, hcount, fun s hs => ?_, fun k hk => ?_, ?_, hsum⟩
    · rw [hkeys]
      rcases List.mem_append.mp hs with hs | hs
      · exact h.key_mem s hs
      · exact List.mem_singleton.mp hs ▸ hknown
    · rw [hkeys] at hk
      rw [firstPlace_append (h.first_lt k hk), List.length_append]
      exact Nat.lt_add_right _ (h.first_lt k hk)
    · rw [hkeys]
      refine h.ordered.imp_of_mem fun ha hb hlt => ?_
      rwa [firstPlace_append (h.first_lt _ ha), firstPlace_append (h.first_lt _ hb)]
  · rw [if_neg hknown] at hkeys
    -- The new key comes up at the very end.
    have hself := firstPlace_append_self (h.key_ne_of_new hknown)
    refine ⟨?_, hcount, fun s hs => ?_, fun k hk => ?_, ?_, hsum⟩
    · rw [hkeys, List.nodup_append]
      refine ⟨h.keys_nodup, List.pairwise_singleton _ _, fun a ha b hb => ?_⟩
      rw [List.mem_singleton.mp hb]
      exact fun heq => hknown (heq ▸ ha)
    · rw [hkeys]
      rcases List.mem_append.mp hs with hs | hs
      · exact List.mem_append_left _ (h.key_mem s hs)
      · rw [List.mem_singleton.mp hs]
        exact List.mem_append_right _ (List.mem_singleton_self _)
    · rw [hkeys] at hk
      rw [List.length_append, List.length_singleton]
      rcases List.mem_append.mp hk with hk | hk
      · rw [firstPlace_append (h.first_lt k hk)]
        exact Nat.lt_succ_of_lt (h.first_lt k hk)
      · rw [List.mem_singleton.mp hk, hself]
        exact Nat.lt_succ_self _
    · rw [hkeys, List.pairwise_append]
      refine ⟨h.ordered.imp_of_mem fun ha hb hlt => ?_, List.pairwise_singleton _ _,
        fun a ha b hb => ?_⟩
      · rwa [firstPlace_append (h.first_lt _ ha), firstPlace_append (h.first_lt _ hb)]
      · rw [List.mem_singleton.mp hb, hself, firstPlace_append (h.first_lt a ha)]
        exact h.first_lt a ha

/-- Counting single records one after the other. -/
theorem Counts.foldl {sites records : List CallRecord} (h : Counts sites records)
    {new : List CallRecord} (hnew : ∀ r ∈ new, r.count = 1) :
    Counts (sites ++ new) (new.foldl (fun acc r => CallRecord.tally r acc) records) := by
  induction new generalizing sites records with
  | nil => rwa [List.append_nil]
  | cons r rest ih =>
    have hrest := ih (h.tally (hnew r List.mem_cons_self))
      fun d hd => hnew d (List.mem_cons_of_mem _ hd)
    rwa [List.append_assoc] at hrest

/-- A record of a tally has its origin from one of the records that went into it. -/
theorem origin_of_mem_foldl_tally {new records : List CallRecord} {x : CallRecord}
    (h : x ∈ new.foldl (fun acc r => CallRecord.tally r acc) records) :
    ∃ r ∈ records ++ new, x.origin = r.origin := by
  induction new generalizing records with
  | nil => exact ⟨x, by rwa [List.append_nil], rfl⟩
  | cons r rest ih =>
    obtain ⟨y, hy, horigin⟩ := ih h
    rcases List.mem_append.mp hy with hy | hy
    · obtain ⟨z, hz, hz'⟩ := origin_of_mem_tally hy
      refine ⟨z, ?_, horigin.trans hz'⟩
      rcases List.mem_cons.mp hz with rfl | hz
      · exact List.mem_append_right _ List.mem_cons_self
      · exact List.mem_append_left _ hz
    · exact ⟨y, List.mem_append_right _ (List.mem_cons_of_mem _ hy), horigin⟩

/-! ## The order of the ranking -/

/-- The order of a ranking: more often comes first; of records that count the same, the one whose
key comes up first among the sites. -/
def Precedes (sites : List CallRecord) (a b : CallRecord) : Prop :=
  b.count < a.count ∨ (b.count = a.count ∧ firstPlace a.key sites < firstPlace b.key sites)

/-- Ranking loses no record. -/
theorem ranked_perm (records : List CallRecord) : (ranked records).Perm records :=
  List.mergeSort_perm records _

/-- Counting at most as often as another record: an order that compares any two records. -/
theorem trans_count_le (a b c : CallRecord) (hab : decide (b.count ≤ a.count) = true)
    (hbc : decide (c.count ≤ b.count) = true) : decide (c.count ≤ a.count) = true := by
  simp only [decide_eq_true_eq] at *
  omega

/-- Of two records, one has at least the count of the other. -/
theorem total_count_le (a b : CallRecord) :
    (decide (b.count ≤ a.count) || decide (a.count ≤ b.count)) = true := by
  simp only [Bool.or_eq_true, decide_eq_true_eq]
  omega

/-- Ranked records have falling counts. -/
theorem ranked_le (records : List CallRecord) :
    (ranked records).Pairwise fun a b => b.count ≤ a.count := by
  have h : (ranked records).Pairwise fun a b => decide (b.count ≤ a.count) = true :=
    List.pairwise_mergeSort trans_count_le total_count_le records
  exact h.imp of_decide_eq_true

/-- A ranking keeps the order of records that count the same. -/
theorem filter_ranked (n : Nat) (records : List CallRecord) :
    (ranked records).filter (·.count = n) = records.filter (·.count = n) := by
  have hsame : (records.filter (·.count = n)).Pairwise
      fun a b => decide (b.count ≤ a.count) = true := by
    refine List.pairwise_of_forall_mem_list fun a ha b hb => ?_
    have hca := (List.mem_filter.mp ha).2
    have hcb := (List.mem_filter.mp hb).2
    simp only [decide_eq_true_eq] at hca hcb ⊢
    omega
  -- A stable sort keeps records that are in order already; those of one count are.
  have hsub : (records.filter (·.count = n)).Sublist (ranked records) :=
    List.sublist_mergeSort trans_count_le total_count_le hsame List.filter_sublist
  have hfilter := hsub.filter (·.count = n)
  simp only [List.filter_filter, Bool.and_self] at hfilter
  exact (hfilter.eq_of_length ((ranked_perm records).filter _).length_eq.symm).symm

/-- The order of a ranking of counted records. -/
theorem ranked_pairwise {sites records : List CallRecord} (h : Counts sites records) :
    (ranked records).Pairwise (Precedes sites) := by
  refine List.pairwise_iff_forall_sublist.mpr fun {a b} hab => ?_
  have hle := List.pairwise_iff_forall_sublist.mp (ranked_le records) hab
  rcases Nat.lt_or_eq_of_le hle with hlt | heq
  · exact .inl hlt
  -- Of records with one count the ranking keeps the order in which their keys come up.
  · have hsub := hab.filter (·.count = a.count)
    have hboth : [a, b].filter (·.count = a.count) = [a, b] := by simp [heq]
    rw [hboth, filter_ranked] at hsub
    have hordered := List.pairwise_map.mp h.ordered
    exact .inr ⟨heq, List.pairwise_iff_forall_sublist.mp hordered (hsub.trans List.filter_sublist)⟩

end CallRecord

namespace Sites

/-! ## The sites of a file -/

/-- The calls and constructions of a file that count, in preorder. -/
def countedSites (s : Source) : List Node :=
  s.root.preorder.filter isCounted

namespace Reading

section Monads

variable {m : Type → Type} [Monad m] [LawfulMonad m] (reading : Reading m)

/-- A tally counts the records of the sites one after the other. -/
theorem foldlM_count_eq (sites : List Node) (records : List CallRecord) :
    sites.foldlM reading.count records =
      (fun rs : List CallRecord => rs.foldl (fun acc r => r.tally acc) records) <$>
        sites.mapM reading.record := by
  induction sites generalizing records with
  | nil => simp
  | cons n rest ih =>
    have hfirst : reading.count records n =
        (fun r : CallRecord => r.tally records) <$> reading.record n := by
      unfold count
      rw [bind_pure_comp]
    rw [List.foldlM_cons, List.mapM_cons, hfirst, bind_map_left]
    simp only [ih, map_bind, bind_pure_comp, Functor.map_map, List.foldl_cons]

/-- The tally of a file folds the records of its sites, in order. -/
theorem tallied_eq (s : Source) : reading.tallied s =
    (fun rs : List CallRecord => rs.foldl (fun acc r => r.tally acc) []) <$>
      (countedSites s).mapM reading.record :=
  foldlM_count_eq reading _ _

end Monads

/-! ## How inference reads sites -/

/-- A reading that asks questions, with the questions answered. -/
def perform (oracle : Oracle) (reading : Reading Inquiry) : Reading (StateM Knowledge) where
  calleeName n := (reading.calleeName n).perform oracle
  constructedName n := (reading.constructedName n).perform oracle
  called n := (reading.called n).perform oracle
  constructed n := (reading.constructed n).perform oracle
  locate := reading.locate
  isExternal := reading.isExternal

section Perform

variable (reading : Reading Inquiry) (oracle : Oracle)

/-- Naming a site asks the oracle only what the reading asks. -/
theorem perform_nameOf (n : Node) :
    (reading.nameOf n).perform oracle = (reading.perform oracle).nameOf n := by
  unfold nameOf naming
  split
  · rw [Inquiry.perform_bind]
    split <;> rfl
  · rfl

/-- Resolving a site asks the oracle only what the reading asks. -/
theorem perform_target (n : Node) :
    (reading.target n).perform oracle = (reading.perform oracle).target n := by
  unfold target
  split <;> rfl

/-- A site is recorded as by actions that answer the questions it raises. -/
theorem perform_record (n : Node) :
    (reading.record n).perform oracle = (reading.perform oracle).record n := by
  unfold record
  rw [Inquiry.perform_bind, perform_nameOf]
  refine bind_congr fun callee => ?_
  rw [Inquiry.perform_bind, perform_target]
  rfl

/-- Recording sites asks the oracle only what the reading asks. -/
theorem perform_mapM_record (sites : List Node) :
    (sites.mapM reading.record).perform oracle = sites.mapM (reading.perform oracle).record := by
  induction sites with
  | nil => rfl
  | cons n rest ih =>
    rw [List.mapM_cons, List.mapM_cons, Inquiry.perform_bind, perform_record]
    refine bind_congr fun r => ?_
    rw [Inquiry.perform_bind, ih]
    rfl

/-- The sites of a file are ranked as by actions that answer the questions they raise. -/
theorem perform_ranked (limit : Json) (s : Source) :
    (reading.ranked limit s).perform oracle = (reading.perform oracle).ranked limit s := by
  have htallied : (reading.tallied s).perform oracle = (reading.perform oracle).tallied s := by
    rw [tallied_eq, tallied_eq, map_eq_pure_bind, Inquiry.perform_bind, perform_mapM_record,
      map_eq_pure_bind]
    rfl
  unfold ranked
  rw [Inquiry.perform_bind, htallied]
  rfl

end Perform

/-! ## Sites that cannot be read -/

/-- A declaration has an origin if it can be located and its file can be told external or not. -/
theorem originOf_eq_some_iff {m : Type → Type} (reading : Reading m) {d : Declaration}
    {o : Origin} :
    reading.originOf d = some o ↔ reading.locate d = some o.location ∧
      reading.isExternal o.location.fileName = some o.isExternal := by
  obtain ⟨location, external⟩ := o
  -- The two parts are looked up one after the other, and each can fail.
  have hboth : reading.originOf d = (reading.locate d).bind fun l =>
      (reading.isExternal l.fileName).map (Origin.mk l) := by
    unfold originOf
    cases reading.locate d with
    | none => rfl
    | some l =>
      rw [Option.bind_some, Option.map_eq_bind]
      rfl
  rw [hboth, Option.bind_eq_some_iff]
  constructor
  · rintro ⟨l, hl, ho⟩
    obtain ⟨b, hb, hsame⟩ := Option.map_eq_some_iff.mp ho
    obtain ⟨rfl, rfl⟩ := Origin.mk.inj hsame
    exact ⟨hl, hb⟩
  · rintro ⟨hl, hb⟩
    exact ⟨location, hl, Option.map_eq_some_iff.mpr ⟨external, hb, rfl⟩⟩

variable {σ : Type}

/-- What the record of a site tells that is read in a state. It counts the site once. If naming
fails, the site goes by the text of what it calls or constructs, and its target is looked up all the
same. There is an origin exactly if the site binds to a declaration and nothing on the way from the
site to the place of the declaration fails. -/
structure Tells (reading : Reading (StateM σ)) (k : σ) (n : Node) (r : CallRecord) : Prop where
  count_eq : r.count = 1
  named : ∀ named ∈ n.child? (siteRole n), ∀ name, ((reading.naming n named).run k).1 = some name →
    r.callee = siteWord n ++ name
  unnamed : ∀ named ∈ n.child? (siteRole n), ((reading.naming n named).run k).1 = none →
    r.callee = siteWord n ++ named.text
  bare : n.child? (siteRole n) = none → r.callee = siteWord n ++ n.text
  origin_eq_some_iff : ∀ o, r.origin = some o ↔
    ∃ d, ((reading.target n).run ((reading.nameOf n).run k).2).1 = some (some d) ∧
      reading.locate d = some o.location ∧
        reading.isExternal o.location.fileName = some o.isExternal

/-- The record of a site tells what naming and resolving it have found. -/
theorem record_tells (reading : Reading (StateM σ)) (n : Node) (k : σ) :
    reading.Tells k n ((reading.record n).run k).1 where
  count_eq := rfl
  named named hnamed name hname := by
    -- Naming comes first, and starts from the knowledge at the site.
    show ((reading.nameOf n).run k).1 = _
    rw [nameOf, Option.mem_def.mp hnamed]
    show siteWord n ++ (((reading.naming n named).run k).1).getD named.text = _
    rw [hname, Option.getD_some]
  unnamed named hnamed hfails := by
    show ((reading.nameOf n).run k).1 = _
    rw [nameOf, Option.mem_def.mp hnamed]
    show siteWord n ++ (((reading.naming n named).run k).1).getD named.text = _
    rw [hfails, Option.getD_none]
  bare hbare := by
    show ((reading.nameOf n).run k).1 = _
    rw [nameOf, hbare]
    rfl
  origin_eq_some_iff o := by
    show (((reading.target n).run ((reading.nameOf n).run k).2).1.join.bind reading.originOf) =
      some o ↔ _
    simp only [Option.bind_eq_some_iff, Option.join_eq_some_iff, originOf_eq_some_iff]

end Reading

/-- What a record of one site is right about: it counts the site once, and it has an origin only
if it is known whether that is external. -/
def SingleRecord (markers : List Json) (r : CallRecord) : Prop :=
  r.count = 1 ∧ ∀ o, r.origin = some o →
    Location.isExternal markers o.location.fileName = some o.isExternal

/-- A tally counts the records of the sites one after the other. -/
theorem talliedCalls_eq (markers : List Json) (s : Source) : talliedCalls markers s =
    (fun rs : List CallRecord => rs.foldl (fun acc r => r.tally acc) []) <$>
      (countedSites s).mapM (siteRecord markers) :=
  Reading.tallied_eq (inferred markers) s

/-- A site is recorded once, whatever can be found out about it. -/
theorem siteRecord_yields (markers : List Json) (n : Node) :
    (siteRecord markers n).Yields (SingleRecord markers) := by
  intro oracle k
  rw [siteRecord, Reading.perform_record]
  have htells := Reading.record_tells ((inferred markers).perform oracle) n k
  refine ⟨htells.count_eq, fun o ho => ?_⟩
  obtain ⟨d, -, -, hexternal⟩ := (htells.origin_eq_some_iff o).mp ho
  exact hexternal

/-! ## The records of a file -/

namespace Reading

/-- However the sites of a file are read, its records have different keys, each counts the sites
with its key, and together they count every site once. The ranking keeps the first of them by count,
of equal counts the one whose first site comes first. Each site is read in the state that the sites
before it leave; one that cannot be named or located is recorded as far as it can be read. By
`perform_ranked` this is what inference does when it reads the sites of a file. -/
theorem ranked_conserves {σ : Type} (reading : Reading (StateM σ)) {limit : Json} {n : Nat}
    (hlimit : limit.asIndex = some (n : Int)) (s : Source) (k : σ) :
    let sites := countedSites s
    let single := ((sites.mapM reading.record).run k).1
    let records := ((reading.tallied s).run k).1
    (records.map CallRecord.key).Nodup ∧
      (∀ r ∈ records, r.count = single.countP fun one => one.key = r.key) ∧
      (records.map CallRecord.count).sum = sites.length ∧
      (∃ ordered : List CallRecord, ordered.Perm records ∧
        ordered.Pairwise (CallRecord.Precedes single) ∧
        ((reading.ranked limit s).run k).1 = some (ordered.take n)) ∧
      single.length = sites.length ∧
      ∀ i site one, sites[i]? = some site → single[i]? = some one →
        reading.Tells (((sites.take i).mapM reading.record).run k).2 site one := by
  intro sites single records
  -- The records are read one after the other, each in the state that the one before it leaves.
  have htells : ∀ i site one, sites[i]? = some site → single[i]? = some one →
      reading.Tells (((sites.take i).mapM reading.record).run k).2 site one := by
    intro i site one hsite hone
    have hread := getElem?_run_mapM reading.record sites k i
    rw [hsite, Option.map_some] at hread
    obtain rfl := Option.some.inj (hone.symm.trans hread)
    exact record_tells reading site _
  have hlength : single.length = sites.length := length_run_mapM reading.record sites k
  have hsingle : ∀ one ∈ single, one.count = 1 := by
    intro one hone
    -- Every record belongs to one of the sites.
    obtain ⟨i, hi, rfl⟩ := List.mem_iff_getElem.mp hone
    exact (htells i _ _ (List.getElem?_eq_getElem (hlength ▸ hi))
      (List.getElem?_eq_getElem hi)).count_eq
  -- Counting one record after the other from none keeps the tally right.
  have hcounts : CallRecord.Counts single records := by
    have hfold : records = single.foldl (fun acc r => CallRecord.tally r acc) [] := by
      show ((reading.tallied s).run k).1 = _
      rw [tallied_eq]
      rfl
    rw [hfold]
    exact CallRecord.Counts.nil.foldl hsingle
  refine ⟨hcounts.keys_nodup, hcounts.count_eq, hcounts.sum_eq.trans hlength,
    ⟨CallRecord.ranked records, CallRecord.ranked_perm records,
      CallRecord.ranked_pairwise hcounts, ?_⟩, hlength, htells⟩
  unfold ranked
  rw [hlimit]
  rfl

/-- A text with a class whose method is called, and a function that is called. -/
def pairText : String :=
  "class A\x7bm()\x7b\x7d\x7d function bad()\x7b\x7d let a:A;a.m();bad();a.m();bad()"

/-- A reading that cannot name anything and cannot locate what is called `bad`. -/
def partly : Reading Inquiry :=
  { inferred [] with
    calleeName := fun _ => return none
    locate := fun d => if d.name = "bad" then none else some d.location }

/-- What cannot be named goes by its text, and what cannot be located has no origin. All of it is
counted. -/
theorem ranked_conserves_partly :
    let s := Source.ofText "/a.ts" pairText .ts
    let w := Workspace.ofSource {} {} (.ofSource default) s
    let reading := partly.perform (answer (depthBound w))
    let records := ((reading.tallied s).run (.ofWorkspace w)).1
    (Json.integer 60).asIndex = some ((60 : Nat) : Int) ∧
      records.map (fun r => (r.callee, r.count, r.origin.isSome)) =
        [("a.m", 2, true), ("bad", 2, false)] ∧
      (records.map CallRecord.count).sum = (countedSites s).length := by
  intro s w reading records
  have hlimit : (Json.integer 60).asIndex = some ((60 : Nat) : Int) := rfl
  exact ⟨hlimit, by decide +kernel, (ranked_conserves reading hlimit s _).2.2.1⟩

/-- A site that cannot be named is not unresolved: its target is looked up all the same. -/
theorem not_unresolved_of_unnamed :
    ¬∀ (reading : Reading (StateM Knowledge)) (s : Source) (k : Knowledge),
      ∀ site ∈ (countedSites s)[0]?, ∀ named ∈ site.child? (siteRole site),
        ((reading.naming site named).run k).1 = none →
          ((reading.record site).run k).1.origin = none := by
  intro h
  have hsite := h (partly.perform (answer 8)) (Source.ofText "/a.ts" pairText .ts)
    (.ofWorkspace (.ofSource {} {} (.ofSource default) (Source.ofText "/a.ts" pairText .ts)))
  revert hsite
  decide +kernel

end Reading

end Sites

end ScriptGraph
