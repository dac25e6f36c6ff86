import Aixos.Kernel.Namespace

/-!
# Names and what they stand for

The namespace is meant to be a partial map from names to objects, their types and rights. It is one as long as no name
is registered that an entry behind a free one has already: `aixos_namespace_register` looks for the name only up to
the first free entry.

* `NameMap.next` — a partial map that accepts calls with their results.
* `Namespace.Names` — the table is that map, and no two of its entries have the same name.
* `Namespace.Unshadowed` — the condition on a call.
* `Namespace.names_of_path` — the map accepts every run that meets the condition; a call that does not breaks it.
-/

namespace Aixos

open Transition

/-- What the names stand for. -/
abbrev NameMap := CString → Option NsValue

namespace NameMap

/-- Accept a call with its result. -/
def next (M : NameMap) : NsCall × NsResult → Option NameMap
  | (.register none .., r) => if r = .code Code.inval then some M else none
  | (.register (some name) obj type rights, r) =>
    if !Namespace.validArgs name obj type then if r = .code Code.inval then some M else none
    else if (M name).isSome then if r = .code Code.busy then some M else none
    else if r = .code Code.ok then some (Function.update M name (some { object := obj, type, rights }))
    else if r = .code Code.nomem then some M else none
  | (.unregister none, r) => if r = .code Code.inval then some M else none
  | (.unregister (some name), r) =>
    if (M name).isSome then if r = .code Code.ok then some (Function.update M name none) else none
    else if r = .code Code.notFound then some M else none
  | (.resolve none _, r) => if r = .code Code.inval then some M else none
  | (.resolve (some name) obj, r) =>
    if !obj then if r = .code Code.inval then some M else none
    else match M name with
      | none => if r = .code Code.notFound then some M else none
      | some v => if r = .resolved v then some M else none
  | (.openName caller name requiredRights cap, r) =>
    if caller.isNone || !cap || name.isNone then if r = .code Code.inval then some M else none
    else match name.bind M with
      | none => if r = .code Code.notFound then some M else none
      | some v =>
        if v.rights &&& requiredRights ≠ requiredRights then if r = .code Code.perm then some M else none
        else match r with
          | .opened _ => some M
          | r => if r = .code Code.nomem then some M else none

end NameMap

namespace Namespace

variable {ns ns' : Namespace} {M : NameMap} {name : CString} {es : List (Option NsEntry)} {e e' : NsEntry} {c : NsCall}
  {i j k : ℕ}

/-- No two entries have the same name. -/
def Distinct (ns : Namespace) : Prop := ∀ (i j : ℕ) (e e' : NsEntry), ns.table[i]? = some (some e) →
  ns.table[j]? = some (some e') → e.name = e'.name → i = j

/-- The table is the map. -/
structure Names (ns : Namespace) (M : NameMap) : Prop where
  distinct : Distinct ns
  entry : ∀ name v, M name = some v ↔ ∃ (i : ℕ) (e : NsEntry), ns.table[i]? = some (some e) ∧
    e.name = name ∧ e.value = v

/-- No name is registered that an entry behind a free one has. -/
def Unshadowed (ns : Namespace) (c : NsCall) : Prop :=
  ∀ name obj type rights, c = .register (some name) obj type rights → validArgs name obj type = true →
    ∀ (i j : ℕ) (e : NsEntry), ns.table[i]? = some none → ns.table[j]? = some (some e) → e.name = name → j < i

/-! ### The loops -/

/-- What the loop of `aixos_namespace_register` has found in entries that begin at `k`: the first free entry or the
name, whichever comes first. -/
def Scanned (name : CString) (es : List (Option NsEntry)) (k : ℕ) : NsScan → Prop
  | .free i => ∃ j, i = k + j ∧ es[j]? = some none ∧ ∀ l < j, ∃ e : NsEntry, es[l]? = some (some e) ∧ e.name ≠ name
  | .registered => ∃ (j : ℕ) (e : NsEntry), es[j]? = some (some e) ∧ e.name = name ∧ ∀ l < j, es[l]? ≠ some none
  | .full => ∀ (l : ℕ) (e : NsEntry), es[l]? = some (some e) → e.name ≠ name

theorem scanned (name : CString) (es : List (Option NsEntry)) (k : ℕ) : Scanned name es k (scan name es k) := by
  induction es generalizing k with
  | nil => exact fun l e he => by simp at he
  | cons x es ih =>
    cases x with
    | none => exact ⟨0, rfl, rfl, fun l hl => absurd hl (Nat.not_lt_zero l)⟩
    | some e =>
      rw [scan]
      split
      · rename_i hname
        exact ⟨0, e, rfl, hname, fun l hl => absurd hl (Nat.not_lt_zero l)⟩
      · rename_i hname
        have ih := ih (k + 1)
        cases hs : scan name es (k + 1) with
        | free i =>
          rw [hs] at ih
          obtain ⟨j, hi, hj, hall⟩ := ih
          refine ⟨j + 1, by omega, hj, fun l hl => ?_⟩
          cases l with
          | zero => exact ⟨e, rfl, hname⟩
          | succ l => exact hall l (by omega)
        | registered =>
          rw [hs] at ih
          obtain ⟨j, e', hj, he', hall⟩ := ih
          refine ⟨j + 1, e', hj, he', fun l hl => ?_⟩
          cases l with
          | zero => simp
          | succ l => exact hall l (by omega)
        | full =>
          rw [hs] at ih
          intro l e' hl
          cases l with
          | zero =>
            cases hl
            exact hname
          | succ l => exact ih l e' hl

/-- The first entry with a name is an entry with the name. -/
theorem find_eq_some (h : ns.find name = some i) : ∃ e : NsEntry, ns.table[i]? = some (some e) ∧ e.name = name := by
  obtain ⟨hlt, hp, -⟩ := List.findIdx?_eq_some_iff_getElem.mp h
  rw [Option.any_eq_true] at hp
  obtain ⟨e, he, hname⟩ := hp
  exact ⟨e, by rw [List.getElem?_eq_getElem hlt, he], of_decide_eq_true hname⟩

theorem find_eq_none (h : ns.find name = none) (hi : ns.table[i]? = some (some e)) : e.name ≠ name := by
  have hp := List.findIdx?_eq_none_iff.mp h (some e) (List.mem_of_getElem? hi)
  simpa using hp

/-- **Looking a name up.** -/
theorem Names.find (h : Names ns M) (name : CString) :
    (∃ (i : ℕ) (e : NsEntry), ns.find name = some i ∧ ns.table[i]? = some (some e) ∧ e.name = name ∧ M name = some e.value) ∨
      ns.find name = none ∧ M name = none := by
  cases hf : ns.find name with
  | some i =>
    obtain ⟨e, he, hname⟩ := find_eq_some hf
    exact .inl ⟨i, e, rfl, he, hname, (h.entry name e.value).mpr ⟨i, e, he, hname, rfl⟩⟩
  | none =>
    refine .inr ⟨rfl, Option.eq_none_iff_forall_not_mem.mpr fun v hv => ?_⟩
    obtain ⟨i, e, he, hname, -⟩ := (h.entry name v).mp hv
    exact find_eq_none hf he hname

/-! ### The calls -/

/-- A name is given a free entry. -/
theorem Names.set_some (h : Names ns M) (hi : ns.table[i]? = some none) (hM : M e.name = none) :
    Names { ns with table := ns.table.set i (some e) } (Function.update M e.name (some e.value)) := by
  have hlt : i < ns.table.length := (List.getElem?_eq_some_iff.mp hi).1
  have hget : ∀ (l : ℕ) (x : NsEntry), (ns.table.set i (some e))[l]? = some (some x) →
      l = i ∧ x = e ∨ l ≠ i ∧ ns.table[l]? = some (some x) ∧ x.name ≠ e.name := by
    intro l x hl
    by_cases e₁ : l = i
    · rw [e₁, List.getElem?_set_self hlt] at hl
      cases hl
      exact .inl ⟨e₁, rfl⟩
    · rw [List.getElem?_set_ne (Ne.symm e₁)] at hl
      refine .inr ⟨e₁, hl, fun hname => ?_⟩
      have := (h.entry e.name x.value).mpr ⟨l, x, hl, hname, rfl⟩
      rw [hM] at this
      cases this
  refine ⟨fun l l' x x' hl hl' hname => ?_, fun name v => ?_⟩
  · rcases hget l x hl with ⟨rfl, rfl⟩ | ⟨-, h₁, h₂⟩
    · rcases hget l' x' hl' with ⟨rfl, -⟩ | ⟨-, -, h₂⟩
      · rfl
      · exact absurd hname.symm h₂
    · rcases hget l' x' hl' with ⟨rfl, rfl⟩ | ⟨-, h₁', -⟩
      · exact absurd hname h₂
      · exact h.distinct l l' x x' h₁ h₁' hname
  · rw [Function.update_apply]
    split
    · rename_i hname
      constructor
      · intro hv
        cases hv
        exact ⟨i, e, List.getElem?_set_self hlt, hname.symm, rfl⟩
      · rintro ⟨l, x, hl, hx, rfl⟩
        rcases hget l x hl with ⟨-, rfl⟩ | ⟨-, -, h₂⟩
        · rfl
        · exact absurd (hx.trans hname) h₂
    · rename_i hname
      rw [h.entry]
      constructor
      · rintro ⟨l, x, hl, hx, hv⟩
        refine ⟨l, x, ?_, hx, hv⟩
        rw [List.getElem?_set_ne]
        · exact hl
        · rintro rfl
          rw [hi] at hl
          cases hl
      · rintro ⟨l, x, hl, hx, hv⟩
        rcases hget l x hl with ⟨-, rfl⟩ | ⟨-, h₁, -⟩
        · exact absurd hx.symm hname
        · exact ⟨l, x, h₁, hx, hv⟩

/-- The entry of a name is cleared. -/
theorem Names.set_none (h : Names ns M) (hi : ns.table[i]? = some (some e)) :
    Names { ns with table := ns.table.set i none } (Function.update M e.name none) := by
  have hlt : i < ns.table.length := (List.getElem?_eq_some_iff.mp hi).1
  have hget : ∀ (l : ℕ) (x : NsEntry), (ns.table.set i none)[l]? = some (some x) ↔ l ≠ i ∧ ns.table[l]? = some (some x) := by
    intro l x
    by_cases e₁ : l = i
    · rw [e₁, List.getElem?_set_self hlt]
      simp
    · rw [List.getElem?_set_ne (Ne.symm e₁)]
      simp [e₁]
  refine ⟨fun l l' x x' hl hl' => ?_, fun name v => ?_⟩
  · exact h.distinct l l' x x' ((hget l x).mp hl).2 ((hget l' x').mp hl').2
  · rw [Function.update_apply]
    split
    · rename_i hname
      refine ⟨nofun, ?_⟩
      rintro ⟨l, x, hl, hx, -⟩
      obtain ⟨hli, hl⟩ := (hget l x).mp hl
      exact absurd (h.distinct l i x e hl hi (hx.trans hname)) hli
    · rename_i hname
      rw [h.entry]
      constructor
      · rintro ⟨l, x, hl, hx, hv⟩
        refine ⟨l, x, (hget l x).mpr ⟨?_, hl⟩, hx, hv⟩
        rintro rfl
        rw [hi] at hl
        cases hl
        exact hname hx.symm
      · rintro ⟨l, x, hl, hx, hv⟩
        exact ⟨l, x, ((hget l x).mp hl).2, hx, hv⟩

theorem Names.congr (h : Names ns M) (ht : ns'.table = ns.table) : Names ns' M := by
  refine ⟨fun i j e e' => ?_, fun name v => ?_⟩
  · rw [ht]
    exact h.distinct i j e e'
  · rw [ht]
    exact h.entry name v

/-- A name that fits is stored as it is. -/
theorem copy_of_validArgs {obj : BitVec 32} {type : ObjType} (h : validArgs name obj type = true) :
    name.copy (nameSize - 1) = name := by
  obtain ⟨-, -, -, hlen⟩ := of_decide_eq_true h
  refine Subtype.ext (List.take_of_length_le ?_)
  unfold nameSize at hlen ⊢
  omega

/-- What is seen of a call. -/
def events [NamespaceConfig] (ns : Namespace) (c : NsCall) : List (NsCall × NsResult) := [(c, (ns.call c).2)]

theorem names_register (h : Names ns M) {obj : BitVec 32} {type : ObjType} {rights : BitVec 16}
    (hc : Unshadowed ns (.register (some name) obj type rights)) :
    ∃ M', NameMap.next M (.register (some name) obj type rights, .code (ns.register (some name) obj type rights).2) =
      some M' ∧ Names (ns.register (some name) obj type rights).1 M' := by
  unfold register
  dsimp only
  by_cases hv : validArgs name obj type = true
  · rw [if_neg (by simp [hv])]
    have hscan := scanned name ns.table 0
    cases hs : scan name ns.table 0 with
    | free i =>
      rw [hs] at hscan
      obtain ⟨j, hi, hj, hall⟩ := hscan
      rw [Nat.zero_add] at hi
      subst hi
      have hM : M name = none := by
        refine Option.eq_none_iff_forall_not_mem.mpr fun v hm => ?_
        obtain ⟨l, e, hl, hname, -⟩ := (h.entry name v).mp hm
        obtain ⟨e', he', hne⟩ := hall l (hc name obj type rights rfl hv i l e hj hl hname)
        rw [hl] at he'
        cases he'
        exact hne hname
      refine ⟨Function.update M name (some ⟨obj, type, rights⟩), by simp [NameMap.next, hv, hM], ?_⟩
      dsimp only
      rw [copy_of_validArgs hv]
      exact h.set_some (e := { name := name, value := ⟨obj, type, rights⟩ }) hj hM
    | registered =>
      rw [hs] at hscan
      obtain ⟨j, e, hj, hname, -⟩ := hscan
      have hM := (h.entry name e.value).mpr ⟨j, e, hj, hname, rfl⟩
      exact ⟨M, by simp [NameMap.next, hv, hM], h⟩
    | full =>
      rw [hs] at hscan
      have hM : M name = none := by
        refine Option.eq_none_iff_forall_not_mem.mpr fun v hm => ?_
        obtain ⟨l, e, hl, hname, -⟩ := (h.entry name v).mp hm
        exact hscan l e hl hname
      exact ⟨M, by simp [NameMap.next, hv, hM, Code.nomem, Code.ok], h⟩
  · rw [if_pos (by simpa using hv)]
    exact ⟨M, by simp [NameMap.next, hv], h⟩

theorem names_unregister (h : Names ns M) (name : CString) :
    ∃ M', NameMap.next M (.unregister (some name), .code (ns.unregister (some name)).2) = some M' ∧
      Names (ns.unregister (some name)).1 M' := by
  rcases h.find name with ⟨i, e, hf, hi, rfl, hM⟩ | ⟨hf, hM⟩
  · have e₁ : ns.unregister (some e.name) = ({ ns with table := ns.table.set i none }, Code.ok) := by
      simp only [unregister, hf]
    rw [e₁]
    exact ⟨Function.update M e.name none, by simp [NameMap.next, hM], h.set_none hi⟩
  · have e₁ : ns.unregister (some name) = (ns, Code.notFound) := by simp only [unregister, hf]
    rw [e₁]
    exact ⟨M, by simp [NameMap.next, hM], h⟩

theorem resolve_eq (h : Names ns M) (name : CString) :
    ns.resolve (some name) true = (match M name with
      | some v => .resolved v
      | none => .code Code.notFound) := by
  rcases h.find name with ⟨i, e, hf, hi, rfl, hM⟩ | ⟨hf, hM⟩
  · simp [resolve, hf, hi, hM]
  · simp [resolve, hf, hM]

variable [cfg : NamespaceConfig]

theorem openName_table (ns : Namespace) (caller : Option TaskId) (name : Option CString) (requiredRights : BitVec 16)
    (cap : Bool) : (ns.openName caller name requiredRights cap).1.table = ns.table := by
  unfold openName capGrantDirect
  split
  · rfl
  · split
    · rfl
    · split
      · split
        · rfl
        · cases (List.range cfg.capsPerTask).find? _ <;> rfl
      · rfl

theorem names_openName (h : Names ns M) (caller : Option TaskId) (name : Option CString) (requiredRights : BitVec 16)
    (cap : Bool) : NameMap.next M (.openName caller name requiredRights cap,
      (ns.openName caller name requiredRights cap).2) = some M := by
  cases caller with
  | none => rfl
  | some t =>
    cases cap with
    | false => rfl
    | true =>
      cases name with
      | none => rfl
      | some name =>
        have hr := resolve_eq h name
        cases hM : M name with
        | none =>
          rw [hM] at hr
          simp [openName, hr, NameMap.next, hM]
        | some v =>
          rw [hM] at hr
          by_cases hv : v.rights &&& requiredRights = requiredRights
          · cases hg : ns.capGrantDirect t v with
            | none => simp [openName, hr, NameMap.next, hM, hv, hg]
            | some r => simp [openName, hr, NameMap.next, hM, hv, hg]
          · simp [openName, hr, NameMap.next, hM, hv]

/-- **Every call** is accepted, if no name is registered that an entry behind a free one has. -/
theorem names_call (h : Names ns M) (hc : Unshadowed ns c) :
    ∃ M', NameMap.next M (c, (ns.call c).2) = some M' ∧ Names (ns.call c).1 M' := by
  cases c with
  | register name obj type rights =>
    cases name with
    | none => exact ⟨M, rfl, h⟩
    | some name => exact names_register h hc
  | unregister name =>
    cases name with
    | none => exact ⟨M, rfl, h⟩
    | some name => exact names_unregister h name
  | resolve name obj =>
    refine ⟨M, ?_, h⟩
    cases name with
    | none => rfl
    | some name =>
      cases obj with
      | false => rfl
      | true =>
        have hr := resolve_eq h name
        cases hM : M name with
        | none => simp [call, NameMap.next, hM, hr]
        | some v => simp [call, NameMap.next, hM, hr]
  | openName caller name requiredRights cap =>
    exact ⟨M, names_openName h caller name requiredRights cap, h.congr (openName_table ns caller name requiredRights cap)⟩

/-- A call that registers the name of an entry behind a free one makes a second entry with that name. -/
theorem not_distinct_call (h : Distinct ns) (hc : ¬ Unshadowed ns c) : ¬ Distinct (ns.call c).1 := by
  unfold Unshadowed at hc
  push Not at hc
  obtain ⟨name, obj, type, rights, rfl, hv, i, j, e, hi, hj, rfl, hle⟩ := hc
  have hscan := scanned e.name ns.table 0
  cases hs : scan e.name ns.table 0 with
  | free k =>
    rw [hs] at hscan
    obtain ⟨k', hk, hk', -⟩ := hscan
    rw [Nat.zero_add] at hk
    subst hk
    have hkj : k ≠ j := by
      rintro rfl
      rw [hk'] at hj
      cases hj
    have e₁ : (ns.call (.register (some e.name) obj type rights)).1.table =
        ns.table.set k (some ⟨e.name, ⟨obj, type, rights⟩⟩) := by
      simp [call, register, hv, hs, copy_of_validArgs hv]
    intro hd
    refine hkj (hd k j ⟨e.name, ⟨obj, type, rights⟩⟩ e ?_ ?_ rfl)
    · rw [e₁, List.getElem?_set_self (List.getElem?_eq_some_iff.mp hk').1]
    · rw [e₁, List.getElem?_set_ne hkj]
      exact hj
  | registered =>
    rw [hs] at hscan
    obtain ⟨j', e', hj', hname, hall⟩ := hscan
    obtain rfl := h j' j e' e hj' hj hname
    have hne : i ≠ j' := by
      rintro rfl
      rw [hi] at hj
      cases hj
    exact absurd hi (hall i (by omega))
  | full =>
    rw [hs] at hscan
    exact absurd rfl (hscan j e hj)

theorem names_init : Names init fun _ => none := by
  have hnone : ∀ (i : ℕ) (e : NsEntry), init.table[i]? ≠ some (some e) := by
    intro i e hi
    have := List.eq_of_mem_replicate (List.mem_of_getElem? hi)
    cases this
  refine ⟨fun i j e e' hi => absurd hi (hnone i e), fun name v => ⟨nofun, ?_⟩⟩
  rintro ⟨i, e, hi, -⟩
  exact absurd hi (hnone i e)

/-- **The namespace is a partial map.** It accepts every run in which no name is registered that an entry behind a free
one has; a call that registers such a name makes a second entry with it. -/
theorem names_of_path {as : List NsCall} (hp : Path (Next step) Unshadowed init as ns) :
    (∃ M, run NameMap.next (fun _ => none) (trace step events init as) = some M ∧ Names ns M) ∧
      ∀ c, ¬ Unshadowed ns c → ¬ Distinct (ns.call c).1 := by
  have hR : ∀ ns c ns' M, Names ns M → Unshadowed ns c → step ns c = some ns' →
      ∃ M', run NameMap.next M (events ns c) = some M' ∧ Names ns' M' := by
    intro ns c ns' M h hc hstep
    cases hstep
    obtain ⟨M', h₁, h₂⟩ := names_call h hc
    refine ⟨M', ?_, h₂⟩
    change (NameMap.next M (c, (ns.call c).2)).bind (fun m => run NameMap.next m []) = some M'
    rw [h₁]
    rfl
  obtain ⟨M, hrun, hM⟩ := hp.simulates hR names_init
  exact ⟨⟨M, hrun, hM⟩, fun c => not_distinct_call hM.distinct⟩

end Namespace

end Aixos

namespace Aixos.Namespace

open Transition

attribute [local instance] NamespaceConfig.default

def nameA : CString := ⟨[97], by decide⟩

def nameB : CString := ⟨[98], by decide⟩

/-- Two names are registered, the first is unregistered, and the second is registered again. -/
def registerAgain : List NsCall :=
  [.register (some nameA) 1 .sem 3, .register (some nameB) 2 .mq 3, .unregister (some nameA),
    .register (some nameB) 3 .sem 1]

/-- A name that is free again is registered, and the others are looked up. -/
def registerOnce : List NsCall :=
  [.register (some nameA) 1 .sem 3, .register (some nameB) 2 .mq 3, .unregister (some nameA),
    .resolve (some nameA) true, .register (some nameA) 3 .sem 1, .register (some nameB) 4 .sem 1,
    .openName (some 0) (some nameB) 1 true]

instance (ns : Namespace) (c : NsCall) : Decidable (Unshadowed ns c) :=
  match c with
  | .register (some name) obj type rights =>
    decidable_of_iff (validArgs name obj type = true → ∀ i < ns.table.length, ∀ j < ns.table.length,
      ns.table[i]? = some none → ns.table[j]?.join.any (fun e => decide (e.name = name)) = true → j < i) (by
        constructor
        · rintro h name obj type rights ⟨⟩ hv i j e hi hj hname
          refine h hv i (List.getElem?_eq_some_iff.mp hi).1 j (List.getElem?_eq_some_iff.mp hj).1 hi ?_
          simp [hj, hname]
        · rintro h hv i - j - hi hname
          obtain ⟨e, he, hname⟩ := (Option.any_eq_true _ _).mp hname
          exact h name obj type rights rfl hv i j e hi (Option.join_eq_some_iff.mp he) (of_decide_eq_true hname))
  | .register none .. | .unregister _ | .resolve .. | .openName .. => isTrue (by rintro name obj type rights ⟨⟩)

theorem registerOnce_names : ∃ ns, Path (Next step) Unshadowed init registerOnce ns ∧
    (∃ M, run NameMap.next (fun _ => none) (trace step events init registerOnce) = some M ∧ Names ns M) ∧
      ∀ c, ¬ Unshadowed ns c → ¬ Distinct (ns.call c).1 := by
  obtain ⟨ns, hp, -⟩ := exists_path step Unshadowed init registerOnce (fun _ => true) (by decide +kernel)
  exact ⟨ns, hp, names_of_path hp⟩

/-- The name has two entries, and the partial map does not accept that it could be registered again. -/
theorem registerAgain_not_distinct : ∃ ns, run step init registerAgain = some ns ∧ ¬ Distinct ns ∧
    run NameMap.next (fun _ => none) (trace step events init registerAgain) = none := by
  have hrun := exists_run step init registerAgain (fun ns => decide (
    ns.table[0]? = some (some ⟨nameB, 3, .sem, 1⟩) ∧ ns.table[1]? = some (some ⟨nameB, 2, .mq, 3⟩)))
    (by decide +kernel)
  obtain ⟨ns, h, hp⟩ := hrun
  obtain ⟨h₀, h₁⟩ := of_decide_eq_true hp
  refine ⟨ns, h, fun hd => absurd (hd 0 1 _ _ h₀ h₁ rfl) (by decide), ?_⟩
  decide +kernel

end Aixos.Namespace
