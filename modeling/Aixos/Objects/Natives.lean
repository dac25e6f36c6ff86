import Aixos.Core.Invariant
import Aixos.Kernel.Ipc

/-!
# Native objects

The objects that the POSIX functions make and delete are those of the kernel. A call that creates one gives a handle
that named no object before; a call that deletes one takes away that object and no other.

* `Kernel.Live` — a handle names an object.
* `Kernel.Created`, `Kernel.Deleted` — what is left of the handles.
* `Kernel.createObject_cases`, `Kernel.deleteObject_cases` — the calls do that, or nothing.
* `Kernel.Deletable` — when an object can be deleted.
-/

namespace Aixos

namespace Kernel

variable [cfg : Config]

variable {k k' : Kernel} {kind : ObjKind} {h : Handle} {i : ℕ}

/-- The handle names an object. -/
def Live (k : Kernel) (kind : ObjKind) (h : Handle) : Prop := (k.core.objFromHandle kind h).isSome = true

instance : Decidable (k.Live kind h) := inferInstanceAs (Decidable (_ = true))

theorem live_iff : k.Live kind h ↔ h.index < cfg.maxCount kind ∧ (k.core.slots kind h.index).used = true ∧
    (k.core.slots kind h.index).generation = h.generation := by
  unfold Live Core.objFromHandle
  split <;> simp_all

/-- From `k` to `k'` an object has been created. -/
structure Created (k k' : Kernel) (kind : ObjKind) (h : Handle) : Prop where
  fresh : ¬ k.Live kind h
  live : k'.Live kind h
  keeps : ∀ kind' h', k.Live kind' h' → k'.Live kind' h'

/-- From `k` to `k'` an object has been deleted. -/
structure Deleted (k k' : Kernel) (kind : ObjKind) (h : Handle) : Prop where
  live : k.Live kind h
  keeps : ∀ kind' h', k.Live kind' h' → ¬ (kind' = kind ∧ h' = h) → k'.Live kind' h'

/-- A call that creates an object does so, or does nothing. -/
def Creates (kind : ObjKind) (create : Kernel → Kernel × Outcome) : Prop :=
  ∀ k, create k = (k, .ret (.handle none)) ∨ ∃ k' h, create k = (k', .ret (.handle (some h))) ∧ Created k k' kind h

theorem created_slotAlloc (hi : k.core.freeSlot kind = some i) (hs : k'.core.slots = (k.core.slotAlloc kind i).1.slots) :
    Created k k' kind (k.core.slotAlloc kind i).2 := by
  obtain ⟨hu, hlt⟩ := Core.freeSlot_eq_some hi
  have hslot : ∀ kind' j, k'.core.slots kind' j = if kind' = kind ∧ j = i then
      { used := true, generation := nextGeneration (k.core.slots kind i).generation } else k.core.slots kind' j := by
    intro kind' j
    rw [hs]
    dsimp only [Core.slotAlloc]
    rw [Function.update_apply]
    split
    · rename_i e
      rw [Function.update_apply, e]
      simp only [true_and]
    · rename_i e
      rw [if_neg fun h => e h.1]
  refine ⟨fun hl => ?_, ?_, fun kind' h' hl => ?_⟩
  · rw [live_iff] at hl
    rw [show (k.core.slotAlloc kind i).2.index = i from rfl, hu] at hl
    exact Bool.false_ne_true hl.2.1
  · rw [live_iff, hslot, if_pos ⟨rfl, rfl⟩]
    exact ⟨hlt, rfl, rfl⟩
  · rw [live_iff] at hl ⊢
    rw [hslot, if_neg]
    · exact hl
    · rintro ⟨rfl, e⟩
      rw [e, hu] at hl
      exact Bool.false_ne_true hl.2.1

theorem createObject_cases {fill : Kernel → ℕ → Kernel} (hfill : ∀ k i, (fill k i).core.slots = k.core.slots) :
    Creates kind fun k => k.createObject kind fill := by
  intro k
  unfold createObject
  dsimp only
  split
  · exact .inl rfl
  · rename_i i hi
    exact .inr ⟨_, _, rfl, created_slotAlloc hi (hfill _ i)⟩

theorem creates_semCreate (n : ℤ) : Creates .sem fun k => k.semCreate n := by
  intro k
  unfold semCreate
  dsimp only
  split
  · exact .inl rfl
  · exact createObject_cases (fun _ _ => by rfl) k

theorem creates_mqCreate (maxMsgs msgSize : ℕ) (isStatic memory : Bool) :
    Creates .mq fun k => k.mqCreate maxMsgs msgSize isStatic memory := by
  intro k
  unfold mqCreate
  dsimp only
  split
  · exact .inl rfl
  · exact createObject_cases (fun _ _ => by rfl) k

theorem creates_pipeCreate (size : ℕ) (memory : Bool) : Creates .pipe fun k => k.pipeCreate size memory := by
  intro k
  unfold pipeCreate
  dsimp only
  split
  · exact .inl rfl
  · exact createObject_cases (fun _ _ => by rfl) k

/-- The object can be deleted: it is there, nobody waits for it, and this is not an interrupt. -/
structure Deletable (k : Kernel) (kind : ObjKind) (h : Handle) : Prop where
  inIsr : k.core.inIsr = false
  live : k.Live kind h
  idle : ∀ l ∈ objLists kind h.index, k.core.waitLists l = []

instance : Decidable (k.Deletable kind h) :=
  decidable_of_iff (k.core.inIsr = false ∧ k.Live kind h ∧ ∀ l ∈ objLists kind h.index, k.core.waitLists l = [])
    ⟨fun ⟨h₁, h₂, h₃⟩ => ⟨h₁, h₂, h₃⟩, fun ⟨h₁, h₂, h₃⟩ => ⟨h₁, h₂, h₃⟩⟩

theorem deleted_slotFree (hl : k.Live kind h) : Deleted k { k with core := k.core.slotFree kind h.index } kind h := by
  refine ⟨hl, fun kind' h' hl' hne => ?_⟩
  obtain ⟨-, -, hg⟩ := live_iff.mp hl
  obtain ⟨hlt, hu, hg'⟩ := live_iff.mp hl'
  rw [live_iff]
  dsimp only [Core.slotFree]
  rw [Function.update_apply]
  split
  · rename_i e
    subst e
    rw [Function.update_of_ne]
    · exact ⟨hlt, hu, hg'⟩
    · intro e
      refine hne ⟨rfl, ?_⟩
      rw [e] at hg'
      obtain ⟨a, b⟩ := h
      obtain ⟨a', b'⟩ := h'
      exact congrArg₂ Handle.mk e (hg'.symm.trans hg)
  · exact ⟨hlt, hu, hg'⟩

/-- A call that deletes an object does so, or does nothing and fails. -/
theorem deleteObject_cases (k : Kernel) (kind : ObjKind) (h : Handle) :
    (k.Deletable kind h ∧ ∃ k', k.deleteObject kind h = (k', .ret (.code Code.ok)) ∧ Deleted k k' kind h) ∨
      ¬ k.Deletable kind h ∧ ∃ r ≠ Code.ok, k.deleteObject kind h = (k, .ret (.code r)) := by
  unfold deleteObject
  split
  · rename_i hisr
    exact .inr ⟨fun hd => Bool.false_ne_true (hd.inIsr.symm.trans hisr), Code.context, by decide, rfl⟩
  · rename_i hisr
    split
    · rename_i ho
      refine .inr ⟨fun hd => ?_, Code.inval, by decide, rfl⟩
      have := hd.live
      rw [Live, ho] at this
      cases this
    · rename_i i ho
      have hl : k.Live kind h := by rw [Live, ho]; rfl
      have hi : i = h.index := by
        unfold Core.objFromHandle at ho
        split at ho
        · cases ho; rfl
        · cases ho
      subst hi
      split
      · rename_i hall
        refine .inl ⟨⟨by simpa using hisr, hl, fun l hm => ?_⟩, _, rfl, deleted_slotFree hl⟩
        exact List.isEmpty_iff.mp (List.all_eq_true.mp hall l hm)
      · rename_i hall
        refine .inr ⟨fun hd => hall (List.all_eq_true.mpr fun l hm => ?_), Code.busy, by decide, rfl⟩
        rw [hd.idle l hm]
        rfl

end Kernel

end Aixos
