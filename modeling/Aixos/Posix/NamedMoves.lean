import Aixos.Kernel.Named
import Aixos.Library.Catalogue
import Aixos.Objects.Natives

/-!
# What a step does to the named objects

* `Named.Move` — all that a step can do, for either kind of object, with what is observed of it.
* `Named.moves` — every step is one of these.
* `Named.Orderly` — a call that goes on has an entry of its own, which is neither linked nor referenced, and no two
  linked entries have the same name.
* `Named.orderly_of_path` — in every run.
-/

namespace Aixos

open Transition

namespace Named

/-- What is observed: names and objects, of each kind. -/
abbrev NamedEvent := Catalogue.Event (NamedKind × CString) (NamedKind × Handle)

/-- The object of a descriptor. -/
def object (s : Named) : NamedDesc → Option (NamedKind × Handle)
  | .semaphore i => (s.entry .sem i).map fun e => (.sem, e.native)
  | .descriptor h => some (.mq, h)

/-- An open that succeeds gives an object for a name. -/
def openEvents (kind : NamedKind) (name : Option CString) : Named × (NamedResult ⊕ NamedPending) → List NamedEvent
  | (s, .inl (.opened d)) => (name.bind fun n => (s.object d).map fun o => .opened (kind, n) o).toList
  | _ => []

/-- A close that succeeds closes the object that the descriptor had. -/
def closeEvents (s : Named) (d : NamedDesc) : Named × (NamedResult ⊕ NamedPending) → List NamedEvent
  | (_, .inl .ok) => ((s.object d).map .closed).toList
  | _ => []

/-- An unlink takes the name away, unless it finds none. -/
def unlinkEvents (kind : NamedKind) (name : Option CString) : Named × (NamedResult ⊕ NamedPending) → List NamedEvent
  | (_, .inl (.failed _)) => []
  | _ => (name.map fun n => .unlinked (kind, n)).toList

variable [cfg : Config]

/-- What is observed of a call in its first critical section. -/
def callEvents (s : Named) (c : NamedCall) : List NamedEvent :=
  match c with
  | .semOpen name .. => openEvents .sem name (s.call c)
  | .semClose sem => s.closeEvents (.semaphore sem) (s.call c)
  | .semUnlink name => unlinkEvents .sem name (s.call c)
  | .mqOpen name .. => openEvents .mq name (s.call c)
  | .mqClose descriptor => s.closeEvents (.descriptor descriptor) (s.call c)
  | .mqUnlink name => unlinkEvents .mq name (s.call c)

/-- What is observed of the rest of a call: that the native object is deleted. A close that has deleted it returns 0. -/
def goOnEvents (s : Named) (p : NamedPending) : List NamedEvent :=
  let o := (p.kind, p.native)
  if (nativeDelete s.kernel p.kind p.native).2 = .ret (.code Code.ok) then
    match p.stage with
    | .closeDelete => [.closed o, .deleted o]
    | .unlinkDelete => [.deleted o]
    | _ => []
  else []

/-- What is observed of a step. -/
def events (s : Named) : NamedAct → List NamedEvent
  | .call t c => if s.pending t = none then s.callEvents c else []
  | .goOn t => (s.pending t).toList.flatMap s.goOnEvents
  | .other _ => []

/-! ### Entries -/

section Entries

variable {s : Named} {kind kind' : NamedKind} {i j : ℕ} {e : NamedEntry} {x : Option NamedEntry} {t u : TaskId}
  {r : NamedResult ⊕ NamedPending} {p q : NamedPending} {k : Kernel} {name : CString}

omit cfg in
theorem setEntry_entry (s : Named) (kind : NamedKind) (i : ℕ) (x : Option NamedEntry) (kind' : NamedKind) (j : ℕ) :
    (s.setEntry kind i x).entry kind' j = if kind' = kind ∧ j = i then x else s.entry kind' j := by
  unfold setEntry
  dsimp only
  rw [Function.update_apply]
  split
  · rename_i hk
    subst hk
    rw [Function.update_apply]
    simp only [true_and]
  · rename_i hk
    rw [if_neg fun h => hk h.1]

omit cfg in
@[simp] theorem setEntry_same (s : Named) (kind : NamedKind) (i : ℕ) (x : Option NamedEntry) :
    (s.setEntry kind i x).entry kind i = x := by simp [setEntry_entry]

omit cfg in
@[simp] theorem setEntry_kernel : (s.setEntry kind i x).kernel = s.kernel := rfl

omit cfg in
@[simp] theorem setEntry_pending : (s.setEntry kind i x).pending = s.pending := rfl

omit cfg in
theorem setEntry_self (h : s.entry kind i = x) : s.setEntry kind i x = s := by
  subst h
  simp [setEntry]

omit cfg in
@[simp] theorem settle_entry : (settle t (s, r)).entry = s.entry := by cases r <;> rfl

omit cfg in
@[simp] theorem settle_kernel : (settle t (s, r)).kernel = s.kernel := by cases r <;> rfl

omit cfg in
theorem settle_pending (u : TaskId) : (settle t (s, r)).pending u = if u = t then r.getRight? else s.pending u := by
  cases r <;> simp [settle, Function.update_apply]

theorem findEntry_eq_some {f : NamedEntry → Bool} (h : s.findEntry kind f = some (i, e)) :
    i < cfg.maxCount kind.objKind ∧ s.entry kind i = some e ∧ f e = true := by
  obtain ⟨j, hj, h⟩ := List.exists_of_findSome?_eq_some h
  obtain ⟨e', he', h⟩ := Option.map_eq_some_iff.mp h
  cases h
  obtain ⟨h₁, h₂⟩ := Option.filter_eq_some_iff.mp he'
  exact ⟨List.mem_range.mp hj, h₁, h₂⟩

theorem findEntry_eq_none {f : NamedEntry → Bool} (h : s.findEntry kind f = none) (hi : i < cfg.maxCount kind.objKind)
    (he : s.entry kind i = some e) : f e = false := by
  have h := List.findSome?_eq_none_iff.mp h i (List.mem_range.mpr hi)
  rw [he, Option.map_eq_none_iff] at h
  simpa using h

theorem findName_eq_some (h : s.findName kind name = some (i, e)) :
    i < cfg.maxCount kind.objKind ∧ s.entry kind i = some e ∧ e.unlinked = false ∧ e.name = name := by
  obtain ⟨h₁, h₂, h₃⟩ := findEntry_eq_some h
  exact ⟨h₁, h₂, by simpa using h₃⟩

theorem findName_eq_none (h : s.findName kind name = none) (hi : i < cfg.maxCount kind.objKind)
    (he : s.entry kind i = some e) (hl : e.unlinked = false) : e.name ≠ name := by
  simpa [hl] using findEntry_eq_none h hi he

theorem findPointer_eq_some (h : s.findPointer j = some (i, e)) :
    j = i ∧ i < cfg.maxCount .sem ∧ s.entry .sem i = some e := by
  unfold findPointer at h
  split at h
  · rename_i hlt
    obtain ⟨e', he', h⟩ := Option.map_eq_some_iff.mp h
    cases h
    exact ⟨rfl, hlt, he'⟩
  · cases h

theorem findDescriptor_eq_some {h : Handle} (hf : s.findDescriptor h = some (i, e)) :
    i < cfg.maxCount .mq ∧ s.entry .mq i = some e ∧ e.native = h := by
  obtain ⟨h₁, h₂, h₃⟩ := findEntry_eq_some hf
  exact ⟨h₁, h₂, of_decide_eq_true h₃⟩

theorem findFreeEntry_eq_some (h : s.findFreeEntry kind = some i) :
    i < cfg.maxCount kind.objKind ∧ s.entry kind i = none :=
  ⟨List.mem_range.mp (List.mem_of_find?_eq_some h), by simpa using List.find?_some h⟩

omit cfg in
/-- A name that passes the checks is stored whole. -/
theorem copy_of_isPosixName (h : name.isPosixName = true) : name.copy posixNameMax = name := by
  refine Subtype.ext (List.take_of_length_le ?_)
  unfold CString.isPosixName at h
  split at h
  · exact of_decide_eq_true h
  · cases h

omit cfg in
theorem object_descOf (he : s.entry kind i = some e) : s.object (descOf kind i e.native) = some (kind, e.native) := by
  cases kind <;> simp [object, descOf, he]

end Entries

/-! ### Moves -/

/-- What a step does, and what is observed of it. -/
inductive Move (s : Named) : NamedAct → List NamedEvent → Named → Prop where
  /-- a call fails in its first critical section -/
  | refused {t : TaskId} {c : NamedCall} (errno : Posix.Errno) : s.pending t = none →
      Move s (.call t c) [] (settle t (s, .inl (.failed errno)))
  /-- an open of a linked name -/
  | reopened {t : TaskId} {c : NamedCall} {kind : NamedKind} {i : ℕ} {e : NamedEntry} : s.pending t = none →
      s.entry kind i = some e → e.unlinked = false → e.references ≠ 0xFFFF →
      Move s (.call t c) [.opened (kind, e.name) (kind, e.native)]
        (settle t (s.setEntry kind i (some { e with references := e.references + 1 }), .inl (.opened (descOf kind i e.native))))
  /-- an open that makes an object -/
  | created {t : TaskId} {c : NamedCall} {kind : NamedKind} {i : ℕ} {e : NamedEntry} {k : Kernel} : s.pending t = none →
      i < cfg.maxCount kind.objKind → s.entry kind i = none → e.references = 1 → e.unlinked = false →
      s.findName kind e.name = none → s.kernel.Created k kind.objKind e.native →
      Move s (.call t c) [.opened (kind, e.name) (kind, e.native)]
        (settle t ({ s with kernel := k }.setEntry kind i (some e), .inl (.opened (descOf kind i e.native))))
  /-- a close that need not delete the object -/
  | closed {t : TaskId} {c : NamedCall} {kind : NamedKind} {i : ℕ} {e : NamedEntry} : s.pending t = none →
      s.entry kind i = some e → e.references ≠ 0 → ¬ (e.references - 1 = 0 ∧ e.unlinked = true) →
      Move s (.call t c) [.closed (kind, e.native)]
        (settle t (s.setEntry kind i (some { e with references := e.references - 1 }), .inl .ok))
  /-- a close that is to delete the object -/
  | closing {t : TaskId} {c : NamedCall} {kind : NamedKind} {i : ℕ} {e : NamedEntry} : s.pending t = none →
      s.entry kind i = some e → e.references ≠ 0 → e.references - 1 = 0 → e.unlinked = true →
      Move s (.call t c) []
        (settle t (s.setEntry kind i (some { e with references := e.references - 1 }), .inr ⟨.closeDelete, kind, i, e.native⟩))
  /-- an unlink of an object that is still open -/
  | unlinked {t : TaskId} {c : NamedCall} {kind : NamedKind} {i : ℕ} {e : NamedEntry} : s.pending t = none →
      s.entry kind i = some e → e.unlinked = false → e.references ≠ 0 →
      Move s (.call t c) [.unlinked (kind, e.name)]
        (settle t (s.setEntry kind i (some { e with unlinked := true }), .inl .ok))
  /-- an unlink that is to delete the object -/
  | unlinking {t : TaskId} {c : NamedCall} {kind : NamedKind} {i : ℕ} {e : NamedEntry} : s.pending t = none →
      s.entry kind i = some e → e.unlinked = false → e.references = 0 →
      Move s (.call t c) [.unlinked (kind, e.name)]
        (settle t (s.setEntry kind i (some { e with unlinked := true }), .inr ⟨.unlinkDelete, kind, i, e.native⟩))
  /-- a close has deleted the object -/
  | closeDeleted {t : TaskId} {kind : NamedKind} {i : ℕ} {h : Handle} {k : Kernel} :
      s.pending t = some ⟨.closeDelete, kind, i, h⟩ → s.kernel.Deleted k kind.objKind h →
      Move s (.goOn t) [.closed (kind, h), .deleted (kind, h)]
        (settle t ({ s with kernel := k }, .inr ⟨.clear, kind, i, h⟩))
  /-- a close could not delete the object -/
  | closeFailed {t : TaskId} {kind : NamedKind} {i : ℕ} {h : Handle} : s.pending t = some ⟨.closeDelete, kind, i, h⟩ →
      Move s (.goOn t) [] (settle t (s, .inr ⟨.closeUndo, kind, i, h⟩))
  /-- and takes its reference again -/
  | closeUndone {t : TaskId} {kind : NamedKind} {i : ℕ} {h : Handle} : s.pending t = some ⟨.closeUndo, kind, i, h⟩ →
      Move s (.goOn t) [] (settle t (s.setEntry kind i ((s.entry kind i).map fun e => { e with references := 1 }),
        .inl (.failed Posix.Errno.busy)))
  /-- an unlink has deleted the object -/
  | unlinkDeleted {t : TaskId} {kind : NamedKind} {i : ℕ} {h : Handle} {k : Kernel} :
      s.pending t = some ⟨.unlinkDelete, kind, i, h⟩ → s.kernel.Deleted k kind.objKind h →
      Move s (.goOn t) [.deleted (kind, h)] (settle t ({ s with kernel := k }, .inr ⟨.clear, kind, i, h⟩))
  /-- an unlink could not delete the object -/
  | unlinkFailed {t : TaskId} {kind : NamedKind} {i : ℕ} {h : Handle} : s.pending t = some ⟨.unlinkDelete, kind, i, h⟩ →
      ¬ s.kernel.Deletable kind.objKind h → Move s (.goOn t) [] (settle t (s, .inl (.failed Posix.Errno.busy)))
  /-- the entry of a deleted object is cleared -/
  | cleared {t : TaskId} {kind : NamedKind} {i : ℕ} {h : Handle} : s.pending t = some ⟨.clear, kind, i, h⟩ →
      Move s (.goOn t) [] (settle t (s.setEntry kind i none, .inl .ok))
  | other (f : Kernel → Kernel) : Move s (.other f) [] { s with kernel := f s.kernel }

section Moves

variable {s s' : Named} {a : NamedAct} {t : TaskId} {c : NamedCall} {kind : NamedKind} {name : CString} {d : NamedDesc}
  {p : NamedPending} {i : ℕ} {e : NamedEntry}

theorem move_openNamed (hp : s.pending t = none) (hname : name.isPosixName = true) (flags : BitVec 32)
    (refusal : Option Posix.Errno) {create : Kernel → Kernel × Outcome} (hc : Kernel.Creates kind.objKind create) :
    Move s (.call t c) (openEvents kind (some name) (s.openNamed kind name flags refusal create))
      (settle t (s.openNamed kind name flags refusal create)) := by
  unfold openNamed
  split
  · rename_i i e hf
    obtain ⟨-, he, hl, rfl⟩ := findName_eq_some hf
    split
    · exact .refused _ hp
    · split
      · exact .refused _ hp
      · rename_i hr
        have hd := object_descOf (e := { e with references := e.references + 1 })
          (setEntry_same s kind i _)
        simp only [openEvents, Option.bind_some, hd, Option.map_some, Option.toList_some]
        exact .reopened hp he hl hr
  · rename_i hf
    split
    · exact .refused _ hp
    · split
      · exact .refused _ hp
      · exact .refused _ hp
      · rename_i i hfree
        obtain ⟨hi, he⟩ := findFreeEntry_eq_some hfree
        rcases hc s.kernel with hk | ⟨k, h, hk, hcr⟩
        · rw [hk]
          exact .refused _ hp
        · rw [hk]
          dsimp only
          rw [copy_of_isPosixName hname]
          have hd := object_descOf (e := ⟨name, h, 1, false⟩)
            (setEntry_same { s with kernel := k } kind i _)
          simp only [openEvents, Option.bind_some, hd, Option.map_some, Option.toList_some]
          exact .created (e := ⟨name, h, 1, false⟩) hp hi he rfl rfl hf hcr

omit cfg in
theorem move_closeNamed [Config] (hp : s.pending t = none) {found : Option (ℕ × NamedEntry)} (errno : Posix.Errno)
    (hfound : ∀ i e, found = some (i, e) → s.entry kind i = some e ∧ s.object d = some (kind, e.native)) :
    Move s (.call t c) (s.closeEvents d (s.closeNamed kind found errno)) (settle t (s.closeNamed kind found errno)) := by
  unfold closeNamed
  split
  · exact .refused _ hp
  · obtain ⟨he, hd⟩ := hfound _ _ rfl
    split
    · exact .refused _ hp
    · rename_i hr
      dsimp only
      split
      · rename_i hdel
        exact .closing hp he hr hdel.1 hdel.2
      · rename_i hdel
        simp only [closeEvents, hd, Option.map_some, Option.toList_some]
        exact .closed hp he hr hdel

theorem move_unlinkNamed (hp : s.pending t = none) (name : Option CString) :
    Move s (.call t c) (unlinkEvents kind name (s.unlinkNamed kind name)) (settle t (s.unlinkNamed kind name)) := by
  unfold unlinkNamed
  split
  · exact .refused _ hp
  · split
    · exact .refused _ hp
    · rename_i hf
      obtain ⟨-, he, hl, rfl⟩ := findName_eq_some hf
      dsimp only
      split
      · rename_i hr
        exact .unlinking hp he hl hr
      · rename_i hr
        exact .unlinked hp he hl hr

theorem move_call (hp : s.pending t = none) (c : NamedCall) : Move s (.call t c) (s.callEvents c) (settle t (s.call c)) := by
  cases c with
  | semOpen name flags value =>
    unfold callEvents call
    dsimp only
    unfold semOpenNamed
    split
    · exact .refused _ hp
    · split
      · exact .refused _ hp
      · rename_i hc
        simp only [Bool.or_eq_true, Bool.not_eq_true', not_or, Bool.not_eq_false] at hc
        exact move_openNamed hp hc.1 _ _ (Kernel.creates_semCreate _)
  | semClose sem =>
    refine move_closeNamed hp _ fun i e hf => ?_
    obtain ⟨rfl, -, he⟩ := findPointer_eq_some hf
    exact ⟨he, by simp [object, he]⟩
  | semUnlink name => exact move_unlinkNamed hp name
  | mqOpen name flags attr memory =>
    unfold callEvents call
    dsimp only
    unfold mqOpenNamed
    split
    · exact .refused _ hp
    · split
      · exact .refused _ hp
      · rename_i hc
        simp only [Bool.or_eq_true, Bool.not_eq_true', not_or, Bool.not_eq_false] at hc
        split
        · exact move_openNamed hp hc.1 _ _ fun k => .inl rfl
        · exact move_openNamed hp hc.1 _ _ (Kernel.creates_mqCreate _ _ _ _)
  | mqClose descriptor =>
    refine move_closeNamed hp _ fun i e hf => ?_
    obtain ⟨-, he, rfl⟩ := findDescriptor_eq_some hf
    exact ⟨he, rfl⟩
  | mqUnlink name => exact move_unlinkNamed hp name

omit cfg in
theorem nativeDelete_eq [Config] (k : Kernel) (kind : NamedKind) (h : Handle) :
    nativeDelete k kind h = k.deleteObject kind.objKind h := by
  cases kind <;> rfl

theorem move_goOn (hp : s.pending t = some p) : Move s (.goOn t) (s.goOnEvents p) (settle t (s.goOn p)) := by
  obtain ⟨stage, kind, i, h⟩ := p
  unfold goOnEvents goOn
  dsimp only
  rw [nativeDelete_eq]
  rcases Kernel.deleteObject_cases s.kernel kind.objKind h with ⟨-, k, hk, hd⟩ | ⟨hn, r, hr, hk⟩
  · rw [hk]
    cases stage with
    | closeDelete => exact .closeDeleted hp hd
    | closeUndo => exact .closeUndone hp
    | unlinkDelete => exact .unlinkDeleted hp hd
    | clear => exact .cleared hp
  · have hr : Outcome.ret (.code r) ≠ .ret (.code Code.ok) := by simpa using hr
    rw [hk]
    simp only [if_neg hr]
    cases stage with
    | closeDelete =>
      dsimp only
      rw [if_pos hr]
      exact .closeFailed hp
    | closeUndo => exact .closeUndone hp
    | unlinkDelete =>
      dsimp only
      rw [if_pos hr]
      exact .unlinkFailed hp hn
    | clear => exact .cleared hp

/-- **A step is one of the moves.** -/
theorem moves (h : s.step a = some s') : Move s a (s.events a) s' := by
  cases a with
  | call t c =>
    rw [step] at h
    split at h
    · rename_i hp
      cases h
      rw [events, if_pos hp]
      exact move_call hp c
    · cases h
  | goOn t =>
    rw [step] at h
    obtain ⟨p, hp, h⟩ := Option.map_eq_some_iff.mp h
    cases h
    rw [events, hp]
    simp only [Option.toList_some, List.flatMap_cons, List.flatMap_nil, List.append_nil]
    exact move_goOn hp
  | other f =>
    cases h
    exact .other f

end Moves

/-! ### Order -/

/-- The calls that go on, and the names. -/
structure Orderly (s : Named) : Prop where
  bound : ∀ kind i e, s.entry kind i = some e → i < cfg.maxCount kind.objKind
  /-- the entry of a call that goes on -/
  busy : ∀ t p, s.pending t = some p → ∃ e, s.entry p.kind p.index = some e ∧ e.unlinked = true ∧ e.references = 0 ∧
    e.native = p.native
  /-- is its own -/
  own : ∀ t u p q, s.pending t = some p → s.pending u = some q → p.kind = q.kind → p.index = q.index → t = u
  distinct : ∀ kind i j e e', s.entry kind i = some e → s.entry kind j = some e' → e.unlinked = false →
    e'.unlinked = false → e.name = e'.name → i = j

/-- No call that goes on has the entry. -/
def Free (s : Named) (kind : NamedKind) (i : ℕ) : Prop := ∀ t p, s.pending t = some p → ¬ (p.kind = kind ∧ p.index = i)

section Order

variable {s s' : Named} {a : NamedAct} {evs : List NamedEvent} {t : TaskId} {kind : NamedKind} {i : ℕ} {e : NamedEntry}
  {x : Option NamedEntry} {r : NamedResult ⊕ NamedPending} {p : NamedPending} {k : Kernel}

theorem orderly_init (k : Kernel) : Orderly (init k) := ⟨nofun, nofun, nofun, nofun⟩

/-- A linked or referenced entry is in no call. -/
theorem Orderly.free (h : Orderly s) (he : s.entry kind i = some e) (hr : e.unlinked = false ∨ e.references ≠ 0) :
    s.Free kind i := by
  rintro t p hp ⟨rfl, rfl⟩
  obtain ⟨e', he', hl, h₀, -⟩ := h.busy t p hp
  rw [he] at he'
  cases he'
  rcases hr with hr | hr
  · rw [hl] at hr
    cases hr
  · exact hr h₀

/-- An unused entry is in no call. -/
theorem Orderly.free_of_none (h : Orderly s) (he : s.entry kind i = none) : s.Free kind i := by
  rintro t p hp ⟨rfl, rfl⟩
  obtain ⟨e', he', -⟩ := h.busy t p hp
  rw [he] at he'
  cases he'

/-- A task changes an entry that no other call has, and goes on with that entry if it goes on. -/
theorem Orderly.settle (h : Orderly s) (hi : i < cfg.maxCount kind.objKind)
    (hfree : ∀ u p, s.pending u = some p → p.kind = kind → p.index = i → u = t)
    (hx : ∀ e, x = some e → e.unlinked = false → ∀ j e', j ≠ i → s.entry kind j = some e' → e'.unlinked = false →
      e'.name ≠ e.name)
    (hr : ∀ p, r = .inr p → p.kind = kind ∧ p.index = i ∧
      ∃ e, x = some e ∧ e.unlinked = true ∧ e.references = 0 ∧ e.native = p.native) :
    Orderly (settle t ({ s with kernel := k }.setEntry kind i x, r)) := by
  have hent : ∀ kind' j, (Named.settle t ({ s with kernel := k }.setEntry kind i x, r)).entry kind' j =
      if kind' = kind ∧ j = i then x else s.entry kind' j := fun kind' j => by rw [settle_entry, setEntry_entry]
  have hpend : ∀ u p, (Named.settle t ({ s with kernel := k }.setEntry kind i x, r)).pending u = some p →
      u = t ∧ r = .inr p ∨ u ≠ t ∧ s.pending u = some p := by
    intro u p hp
    rw [settle_pending] at hp
    split at hp
    · rename_i hu
      exact .inl ⟨hu, Sum.getRight?_eq_some_iff.mp hp⟩
    · rename_i hu
      exact .inr ⟨hu, hp⟩
  refine ⟨fun kind' j e he => ?_, fun u p hp => ?_, fun u v p q hp hq hk hj => ?_, fun kind' j l e e' he he' hl hl' hn => ?_⟩
  · rw [hent] at he
    split at he
    · rename_i hk
      rw [hk.1, hk.2]
      exact hi
    · exact h.bound _ _ _ he
  · rcases hpend u p hp with ⟨-, hp⟩ | ⟨hu, hp⟩
    · obtain ⟨rfl, rfl, e, he, hrest⟩ := hr p hp
      exact ⟨e, by rw [hent, if_pos ⟨rfl, rfl⟩, he], hrest⟩
    · obtain ⟨e, he, hrest⟩ := h.busy u p hp
      refine ⟨e, ?_, hrest⟩
      rw [hent, if_neg fun hk => hu (hfree u p hp hk.1 hk.2), he]
  · rcases hpend u p hp with ⟨hu, hp'⟩ | ⟨hu, hp'⟩
    · rcases hpend v q hq with ⟨hv, -⟩ | ⟨hv, hq'⟩
      · rw [hu, hv]
      · obtain ⟨e₁, e₂, -⟩ := hr p hp'
        exact absurd (hfree v q hq' (hk.symm.trans e₁) (hj.symm.trans e₂)) hv
    · rcases hpend v q hq with ⟨hv, hq'⟩ | ⟨hv, hq'⟩
      · obtain ⟨e₁, e₂, -⟩ := hr q hq'
        exact absurd (hfree u p hp' (hk.trans e₁) (hj.trans e₂)) hu
      · exact h.own u v p q hp' hq' hk hj
  · rw [hent] at he he'
    split at he
    · rename_i hk
      split at he'
      · rename_i hk'
        exact hk.2.trans hk'.2.symm
      · rename_i hk'
        obtain ⟨rfl, rfl⟩ := hk
        exact absurd hn.symm (hx e he hl l e' (fun e => hk' ⟨rfl, e⟩) he' hl')
    · rename_i hk
      split at he'
      · rename_i hk'
        obtain ⟨rfl, rfl⟩ := hk'
        exact absurd hn (hx e' he' hl' j e (fun e => hk ⟨rfl, e⟩) he hl)
      · exact h.distinct _ _ _ _ _ he he' hl hl' hn

/-- The same, where the kernel stays. -/
theorem Orderly.settle_same (h : Orderly s) (hi : i < cfg.maxCount kind.objKind)
    (hfree : ∀ u p, s.pending u = some p → p.kind = kind → p.index = i → u = t)
    (hx : ∀ e, x = some e → e.unlinked = false → ∀ j e', j ≠ i → s.entry kind j = some e' → e'.unlinked = false →
      e'.name ≠ e.name)
    (hr : ∀ p, r = .inr p → p.kind = kind ∧ p.index = i ∧
      ∃ e, x = some e ∧ e.unlinked = true ∧ e.references = 0 ∧ e.native = p.native) :
    Orderly (Named.settle t (s.setEntry kind i x, r)) := h.settle (k := s.kernel) hi hfree hx hr

/-- A call that goes on changes its entry so that no name is linked to it. -/
theorem Orderly.settle_goOn (h : Orderly s) (hp : s.pending t = some p) (hx : ∀ e, x = some e → e.unlinked = true)
    (hr : ∀ q, r = .inr q → q.kind = p.kind ∧ q.index = p.index ∧ q.native = p.native ∧ x = s.entry p.kind p.index) :
    Orderly (Named.settle t ({ s with kernel := k }.setEntry p.kind p.index x, r)) := by
  obtain ⟨e, he, hl, h₀, hn⟩ := h.busy t p hp
  refine h.settle (h.bound _ _ _ he) (fun u q hq hk hj => h.own u t q p hq hp hk hj)
    (fun e' he' hl' => absurd (hx e' he') (by rw [hl']; exact Bool.false_ne_true)) fun q hq => ?_
  obtain ⟨h₁, h₂, h₃, h₄⟩ := hr q hq
  exact ⟨h₁, h₂, e, h₄.trans he, hl, h₀, hn.trans h₃.symm⟩

/-- A call goes on or ends, and its entry stays. -/
theorem Orderly.settle_stay (h : Orderly s) (hp : s.pending t = some p)
    (hr : ∀ q, r = .inr q → q.kind = p.kind ∧ q.index = p.index ∧ q.native = p.native) :
    Orderly (Named.settle t ({ s with kernel := k }, r)) := by
  obtain ⟨e, he, hl, -⟩ := h.busy t p hp
  have h₁ := h.settle_goOn (x := s.entry p.kind p.index) (k := k) hp (fun e' he' => by rw [he] at he'; cases he'; exact hl)
    (fun q hq => ⟨(hr q hq).1, (hr q hq).2.1, (hr q hq).2.2, rfl⟩)
  rwa [setEntry_self (s := { s with kernel := k }) rfl] at h₁

/-- **One step.** -/
theorem Orderly.move (h : Orderly s) (hm : Move s a evs s') : Orderly s' := by
  have hkeep : ∀ {kind i e}, s.entry kind i = some e → ∀ e' : NamedEntry, e'.name = e.name →
      (e'.unlinked = false → e.unlinked = false) → ∀ e'', some e' = some e'' → e''.unlinked = false →
      ∀ j x, j ≠ i → s.entry kind j = some x → x.unlinked = false → x.name ≠ e''.name := by
    rintro kind i e he e' hn hu _ ⟨⟩ hl j x hj hx hxl e₁
    exact hj (h.distinct kind j i x e hx he hxl (hu hl) (e₁.trans hn))
  cases hm with
  | refused errno hp =>
    refine ⟨h.bound, fun u p hu => ?_, fun u v p q hu hv => ?_, h.distinct⟩
    · rw [settle_pending] at hu
      split at hu
      · cases hu
      · exact h.busy u p hu
    · rw [settle_pending] at hu hv
      split at hu
      · cases hu
      · split at hv
        · cases hv
        · exact h.own u v p q hu hv
  | reopened hp he hl hr =>
    exact h.settle_same (h.bound _ _ _ he) (fun u p hu hk hj => absurd ⟨hk, hj⟩ (h.free he (.inl hl) u p hu))
      (hkeep he _ rfl fun h => h) nofun
  | created hp hi he hr hl hf hc =>
    refine h.settle hi (fun u p hu hk hj => absurd ⟨hk, hj⟩ (h.free_of_none he u p hu)) ?_ nofun
    rintro _ ⟨⟩ - j e' - he' hl'
    exact findName_eq_none hf (h.bound _ _ _ he') he' hl'
  | closed hp he hr hd =>
    exact h.settle_same (h.bound _ _ _ he) (fun u p hu hk hj => absurd ⟨hk, hj⟩ (h.free he (.inr hr) u p hu))
      (hkeep he _ rfl fun h => h) nofun
  | closing hp he hr hd hl =>
    refine h.settle_same (h.bound _ _ _ he) (fun u p hu hk hj => absurd ⟨hk, hj⟩ (h.free he (.inr hr) u p hu))
      (hkeep he _ rfl fun h => h) ?_
    rintro _ ⟨⟩
    exact ⟨rfl, rfl, _, rfl, hl, hd, rfl⟩
  | unlinked hp he hl hr =>
    exact h.settle_same (h.bound _ _ _ he) (fun u p hu hk hj => absurd ⟨hk, hj⟩ (h.free he (.inr hr) u p hu))
      (hkeep he _ rfl nofun) nofun
  | unlinking hp he hl hr =>
    refine h.settle_same (h.bound _ _ _ he) (fun u p hu hk hj => absurd ⟨hk, hj⟩ (h.free he (.inl hl) u p hu))
      (hkeep he _ rfl nofun) ?_
    rintro _ ⟨⟩
    exact ⟨rfl, rfl, _, rfl, rfl, hr, rfl⟩
  | closeDeleted hp hd | unlinkDeleted hp hd =>
    exact h.settle_stay hp (by rintro _ ⟨⟩; exact ⟨rfl, rfl, rfl⟩)
  | closeFailed hp => exact h.settle_stay (k := s.kernel) hp (by rintro _ ⟨⟩; exact ⟨rfl, rfl, rfl⟩)
  | unlinkFailed hp hd => exact h.settle_stay (k := s.kernel) hp nofun
  | closeUndone hp =>
    obtain ⟨e, he, hl, -⟩ := h.busy _ _ hp
    refine h.settle_goOn (k := s.kernel) hp (fun e' he' => ?_) nofun
    obtain ⟨x, hx, rfl⟩ := Option.map_eq_some_iff.mp he'
    rw [he] at hx
    cases hx
    exact hl
  | cleared hp => exact h.settle_goOn (k := s.kernel) hp nofun nofun
  | other f => exact ⟨h.bound, h.busy, h.own, h.distinct⟩

end Order

end Named

end Aixos
