import Mathlib.Logic.Function.Basic
import Mathlib.Data.List.Nodup

/-!
# Records as lists of named entries

A record has one value for each field of a finite list. Writing it gives an entry for each
field that is not skipped; reading visits the entries one by one, ignores the names it does
not know, and fills what is missing from the defaults.
-/
namespace Queuey.Record

/-- How the fields of a record are named, written, read and left out. -/
structure Schema (F J E : Type) where
  T : F → Type
  fields : List F
  nodup : fields.Nodup
  complete : ∀ f, f ∈ fields
  name : F → String
  name_injective : Function.Injective name
  encode : ∀ f, T f → J
  decode : ∀ f, J → Except E (T f)
  /-- The value of a field that has no entry, if it may have none. -/
  absent : ∀ f, Option (T f)
  /-- The value is not written. -/
  skip : ∀ f, T f → Bool

inductive Fault (E : Type) where
  | duplicate (name : String)
  | missing (name : String)
  | length (expected : ℕ)
  | value (error : E)
deriving DecidableEq

variable {F J E : Type}

abbrev Schema.Values (S : Schema F J E) : Type := ∀ f, S.T f

/-- What the entries visited so far have given. -/
abbrev Schema.Partial (S : Schema F J E) : Type := ∀ f, Option (S.T f)

def Schema.entries (S : Schema F J E) (r : S.Values) : List (String × J) :=
  S.fields.filterMap fun f => if S.skip f (r f) then none else some (S.name f, S.encode f (r f))

def Schema.field (S : Schema F J E) (name : String) : Option F :=
  S.fields.find? fun f => S.name f = name

/-- The value of a field after all entries. -/
def Schema.value (S : Schema F J E) (p : S.Partial) (f : F) : Option (S.T f) :=
  (p f).or (S.absent f)

/-- The first field that has no value and no default is missed. -/
def Schema.finish (S : Schema F J E) (p : S.Partial) : Except (Fault E) S.Values :=
  match h : S.fields.find? fun f => (S.value p f).isNone with
  | some f => .error (.missing (S.name f))
  | none => .ok fun f => (S.value p f).get (by
      have hf := List.find?_eq_none.mp h f (S.complete f)
      simpa [Option.isSome_iff_ne_none] using hf)

/-- Every known name at most once, with a value that reads, and every field that has no
default. -/
structure Schema.Accepts (S : Schema F J E) (entries : List (String × J)) : Prop where
  once : ((entries.map Prod.fst).filter fun name => (S.field name).isSome).Nodup
  typed : ∀ f j, (S.name f, j) ∈ entries → ∃ v, S.decode f j = .ok v
  required : ∀ f, S.absent f = none → ∃ j, (S.name f, j) ∈ entries

variable {S : Schema F J E} {entries : List (String × J)} {p : S.Partial}
  {r : S.Values} {f : F}

@[simp] theorem field_name (S : Schema F J E) (f : F) : S.field (S.name f) = some f := by
  unfold Schema.field
  cases h : S.fields.find? fun g => S.name g = S.name f with
  | none =>
    have hf := List.find?_eq_none.mp h f (S.complete f)
    simp at hf
  | some g =>
    have hname : S.name g = S.name f := by simpa using List.find?_some h
    rw [S.name_injective hname]

theorem name_of_field {name : String} (h : S.field name = some f) : S.name f = name := by
  simpa using List.find?_some h

theorem mem_entries {j : J} : (S.name f, j) ∈ S.entries r ↔
    S.skip f (r f) = false ∧ j = S.encode f (r f) := by
  unfold Schema.entries
  simp only [List.mem_filterMap]
  constructor
  · rintro ⟨g, -, hg⟩
    split_ifs at hg with hskip
    obtain ⟨hname, rfl⟩ := Prod.mk.inj (Option.some.inj hg)
    obtain rfl := S.name_injective hname
    exact ⟨by simpa using hskip, rfl⟩
  · rintro ⟨hskip, rfl⟩
    exact ⟨f, S.complete f, by simp [hskip]⟩

theorem name_mem_entries : S.name f ∈ (S.entries r).map Prod.fst ↔ S.skip f (r f) = false := by
  rw [List.mem_map]
  constructor
  · rintro ⟨⟨name, j⟩, hj, hname⟩
    obtain rfl : name = S.name f := hname
    exact (mem_entries.mp hj).1
  · intro hskip
    exact ⟨_, mem_entries.mpr ⟨hskip, rfl⟩, rfl⟩

/-- The names that are written are those of the fields that are not skipped. -/
theorem entries_names : (S.entries r).map Prod.fst =
    (S.fields.filter fun f => !S.skip f (r f)).map S.name := by
  unfold Schema.entries
  induction S.fields with
  | nil => rfl
  | cons f rest ih =>
    cases hskip : S.skip f (r f) with
    | false => simp [hskip, ih]
    | true => simp [hskip, ih]

theorem entries_nodup : ((S.entries r).map Prod.fst).Nodup := by
  rw [entries_names]
  exact (S.nodup.filter _).map S.name_injective

theorem value_isSome (S : Schema F J E) (p : S.Partial)
    (h : ∀ f, S.absent f = none → (p f).isSome) (f : F) : (S.value p f).isSome := by
  unfold Schema.value
  cases ha : S.absent f with
  | none => simp [h f ha]
  | some v => cases p f <;> rfl

theorem finish_ok (h : ∀ f, S.absent f = none → (p f).isSome) :
    ∃ r, S.finish p = .ok r ∧ ∀ f, S.value p f = some (r f) := by
  unfold Schema.finish
  split
  · next f hf =>
    have hnone := List.find?_some hf
    have hsome := value_isSome S p h f
    rw [Option.isSome_iff_ne_none] at hsome
    exact absurd (by simpa using hnone) hsome
  · exact ⟨_, rfl, fun f => by simp⟩

/-- What is written is accepted, if values read back and only defaults are skipped. -/
theorem entries_accepted
    (reads : ∀ f, S.skip f (r f) = false → S.decode f (S.encode f (r f)) = .ok (r f))
    (skips : ∀ f, S.skip f (r f) = true → S.absent f = some (r f)) :
    S.Accepts (S.entries r) := by
  constructor
  · exact entries_nodup.filter _
  · intro f j hj
    obtain ⟨hskip, rfl⟩ := mem_entries.mp hj
    exact ⟨_, reads f hskip⟩
  · intro f hf
    refine ⟨_, mem_entries.mpr ⟨?_, rfl⟩⟩
    cases hskip : S.skip f (r f) with
    | false => rfl
    | true => rw [skips f hskip] at hf; cases hf

variable [DecidableEq F]

def Schema.visit (S : Schema F J E) (p : S.Partial) (entry : String × J) :
    Except (Fault E) S.Partial :=
  match S.field entry.1 with
  | none => .ok p
  | some f =>
    if (p f).isSome then .error (.duplicate (S.name f))
    else match S.decode f entry.2 with
      | .ok v => .ok (Function.update p f (some v))
      | .error e => .error (.value e)

def Schema.ofEntries (S : Schema F J E) (entries : List (String × J)) :
    Except (Fault E) S.Values := do
  let p ← entries.foldlM S.visit fun _ => none
  S.finish p

/-- A record written as a list of its values, in the order of the fields. -/
def Schema.visitSeq (S : Schema F J E) : List F → List J → S.Partial →
    Except (Fault E) S.Partial
  | [], [], p => .ok p
  | [], _ :: _, _ => .error (.length S.fields.length)
  | f :: fields, [], p =>
    match S.absent f with
    | some v => S.visitSeq fields [] (Function.update p f (some v))
    | none => .error (.length S.fields.length)
  | f :: fields, j :: rest, p =>
    match S.decode f j with
    | .ok v => S.visitSeq fields rest (Function.update p f (some v))
    | .error e => .error (.value e)

def Schema.ofList (S : Schema F J E) (values : List J) : Except (Fault E) S.Values := do
  let p ← S.visitSeq S.fields values fun _ => none
  S.finish p

/-- Visiting entries whose known names are new and different fills just their fields. -/
theorem visit_entries (p : S.Partial) (entries : List (String × J))
    (once : ((entries.map Prod.fst).filter fun name => (S.field name).isSome).Nodup)
    (typed : ∀ f j, (S.name f, j) ∈ entries → ∃ v, S.decode f j = .ok v)
    (fresh : ∀ f j, (S.name f, j) ∈ entries → p f = none) :
    ∃ q, entries.foldlM S.visit p = .ok q ∧
      (∀ f j, (S.name f, j) ∈ entries → ∃ v, S.decode f j = .ok v ∧ q f = some v) ∧
      ∀ f, (∀ j, (S.name f, j) ∉ entries) → q f = p f := by
  induction entries generalizing p with
  | nil => exact ⟨p, rfl, by simp, by simp⟩
  | cons entry rest ih =>
    obtain ⟨name, j⟩ := entry
    cases hfield : S.field name with
    | none =>
      -- the name is not a field's
      have hother : ∀ f, S.name f ≠ name := by
        rintro f rfl
        rw [field_name] at hfield
        cases hfield
      have honce : ((rest.map Prod.fst).filter fun name => (S.field name).isSome).Nodup := by
        simpa [hfield] using once
      obtain ⟨q, hq, hin, hout⟩ := ih p honce
        (fun f j hj => typed f j (List.mem_cons_of_mem _ hj))
        (fun f j hj => fresh f j (List.mem_cons_of_mem _ hj))
      refine ⟨q, ?_, fun f k hk => ?_, fun f hf => ?_⟩
      · simp [List.foldlM_cons, Schema.visit, hfield, hq, bind, Except.bind]
      · obtain heq | hk := List.mem_cons.mp hk
        · exact absurd (Prod.mk.inj heq).1 (hother f)
        · exact hin f k hk
      · exact hout f fun k hk => hf k (List.mem_cons_of_mem _ hk)
    | some g =>
      obtain rfl := name_of_field hfield
      obtain ⟨v, hv⟩ := typed g j List.mem_cons_self
      have hg : p g = none := fresh g j List.mem_cons_self
      have hnot : ∀ k, (S.name g, k) ∉ rest := by
        intro k hk
        have hname : S.name g ∈ (rest.map Prod.fst).filter fun name => (S.field name).isSome := by
          simp only [List.mem_filter, List.mem_map]
          exact ⟨⟨_, hk, rfl⟩, by simp⟩
        simp only [List.map_cons, field_name, Option.isSome_some, List.filter_cons_of_pos,
          List.nodup_cons] at once
        exact once.1 hname
      have honce : ((rest.map Prod.fst).filter fun name => (S.field name).isSome).Nodup := by
        simp only [List.map_cons, field_name, Option.isSome_some, List.filter_cons_of_pos,
          List.nodup_cons] at once
        exact once.2
      obtain ⟨q, hq, hin, hout⟩ := ih (Function.update p g (some v)) honce
        (fun f k hk => typed f k (List.mem_cons_of_mem _ hk))
        (fun f k hk => by
          have hfg : f ≠ g := by
            rintro rfl
            exact hnot k hk
          rw [Function.update_of_ne hfg]
          exact fresh f k (List.mem_cons_of_mem _ hk))
      have hqg : q g = some v := by simpa using hout g hnot
      refine ⟨q, ?_, fun f k hk => ?_, fun f hf => ?_⟩
      · simp [List.foldlM_cons, Schema.visit, hg, hv, hq, bind, Except.bind]
      · obtain heq | hk := List.mem_cons.mp hk
        · obtain ⟨hname, rfl⟩ := Prod.mk.inj heq
          obtain rfl := S.name_injective hname
          exact ⟨v, hv, hqg⟩
        · exact hin f k hk
      · have hfg : f ≠ g := by
          rintro rfl
          exact hf j List.mem_cons_self
        rw [hout f fun k hk => hf k (List.mem_cons_of_mem _ hk), Function.update_of_ne hfg]

/-- Entries that are accepted give the record of their values, whatever their order and
whatever else is there. -/
theorem ofEntries_ok (h : S.Accepts entries) : ∃ r, S.ofEntries entries = .ok r ∧
    (∀ f j, (S.name f, j) ∈ entries → S.decode f j = .ok (r f)) ∧
    ∀ f, (∀ j, (S.name f, j) ∉ entries) → S.absent f = some (r f) := by
  obtain ⟨q, hq, hin, hout⟩ := visit_entries (fun _ => none) entries h.once h.typed fun _ _ _ => rfl
  have hfull : ∀ f, S.absent f = none → (q f).isSome := by
    intro f hf
    obtain ⟨j, hj⟩ := h.required f hf
    obtain ⟨v, -, hv⟩ := hin f j hj
    simp [hv]
  obtain ⟨r, hr, hvalue⟩ := finish_ok hfull
  refine ⟨r, by simp [Schema.ofEntries, hq, hr, bind, Except.bind], fun f j hj => ?_,
    fun f hf => ?_⟩
  · obtain ⟨v, hdecode, hv⟩ := hin f j hj
    have hf := hvalue f
    simp only [Schema.value, hv, Option.some_or, Option.some.injEq] at hf
    rw [hdecode, hf]
  · have hf' := hvalue f
    rw [Schema.value, hout f hf, Option.none_or] at hf'
    exact hf'

/-- A record is read back from its own entries. -/
theorem ofEntries_entries
    (reads : ∀ f, S.skip f (r f) = false → S.decode f (S.encode f (r f)) = .ok (r f))
    (skips : ∀ f, S.skip f (r f) = true → S.absent f = some (r f)) :
    S.ofEntries (S.entries r) = .ok r := by
  obtain ⟨q, hq, hin, hout⟩ := ofEntries_ok (entries_accepted reads skips)
  suffices heq : q = r by rw [hq, heq]
  funext f
  cases hskip : S.skip f (r f) with
  | false =>
    have hread := hin f _ (mem_entries.mpr ⟨hskip, rfl⟩)
    rw [reads f hskip] at hread
    exact (Except.ok.inj hread).symm
  | true =>
    have hdefault := hout f fun j hj => by
      obtain ⟨hwritten, -⟩ := mem_entries.mp hj
      rw [hskip] at hwritten
      cases hwritten
    rw [skips f hskip] at hdefault
    exact (Option.some.inj hdefault).symm

end Queuey.Record
