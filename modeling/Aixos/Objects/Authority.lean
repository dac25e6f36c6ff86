import Aixos.Library.Transition
import Aixos.Kernel.Grants

/-!
# Authority over semaphores and queues

A capability stores a handle, and a handle has the generation of its slot. What a user task can change follows from what
its capabilities were granted for.

* `Inv` — every entry of a table has the handle of an object that there is or was.
* `found_iff` — what a capability finds.
* `changes_authorized` — a system call changes only what its caller has a capability of.
* `revoked_of_gone` — a capability of an object that has been deleted finds nothing.
-/

namespace Aixos

open Transition

/-- The capability that a system call needs: the pool of its object, the index, and the right. -/
def ObjectCall.needs {σ : Type} : ObjectCall σ → Option (PoolId × ℤ × Rights)
  | .semWait cap _ => some (.sem, cap, capWait)
  | .semPost cap _ => some (.sem, cap, capSignal)
  | .semDelete cap _ => some (.sem, cap, capControl)
  | .mqSend cap _ _ => some (.mq, cap, capWrite)
  | .mqRecv cap _ _ => some (.mq, cap, capRead)
  | .mqDelete cap _ => some (.mq, cap, capControl)
  | .semCreate _ | .mqCreate _ | .capClose _ => none

namespace Grants

variable {σ : Type} [cfg : Config] [ocfg : ObjectConfig] {s s' : Grants σ} {p q : PoolId} {i j k k' : ℕ}
  {t u : TaskId} {cap : ℤ} {right : Rights} {h : BitVec 32} {e : CapEntry} {x : ObjectCall σ}

/-- An entry of a table was granted for an object that there is or was, and stores its handle. -/
structure Names (s : Grants σ) (e : CapEntry) (i : Incarnation) : Prop where
  granted : e.granted = some i
  type : e.type = i.pool.objType
  object : e.object = handleMake i.slot (generationOf i.allocs)
  slot : i.slot < i.pool.maxCount
  pos : 0 < i.allocs
  le : i.allocs ≤ s.history.allocs i.pool i.slot

/-- What holds in all runs. -/
structure Inv (s : Grants σ) : Prop where
  tracks : s.history.Tracks
  cap : ∀ t c e, s.capabilities t c = some e →
    (e.granted = none ∧ (e.type = .channel ∨ e.type = .connection)) ∨ ∃ i, Names s e i
  used : ∀ p i k, s.history.live p i = some k → (s.entries p k).handle ≠ 0
  single : ∀ p i j k, s.history.live p i = some k → s.history.live p j = some k → i = j

theorem inv_init [Inhabited σ] : Inv (init : Grants σ) where
  tracks := History.tracks_init
  cap _ _ _ h := by cases h
  used _ _ _ h := by cases h
  single _ _ _ _ h := by cases h

/-! ### Handles -/

/-- A handle that resolves names the slot of the object. -/
theorem live_of_resolves (ht : s.history.Tracks) (hx : s.history.objects.objFromHandle h p.objType = some k) :
    s.history.live p (handleIdx h) = some k := by
  unfold Objects.objFromHandle at hx
  rw [History.poolId_objType] at hx
  dsimp only at hx
  cases hs : s.history.objects.slotAt p (handleIdx h) with
  | none =>
    rw [hs] at hx
    cases hx
  | some x =>
    obtain ⟨-, hf⟩ := ht.slotAt_eq_some hs
    rw [hs] at hx
    dsimp only at hx
    split at hx
    · exact hf.obj.symm.trans hx
    · cases hx

theorem resolves_slotHandle (ht : s.history.Tracks) (hl : s.history.live p i = some k) :
    s.history.objects.objFromHandle (s.history.objects.slotHandle p i) p.objType = some k :=
  (ht.resolves_iff ht (by rw [hl]; simp)).mpr ⟨hl, rfl⟩

theorem slotHandle_ne_zero (ht : s.history.Tracks) (hl : s.history.live p i ≠ none) :
    s.history.objects.slotHandle p i ≠ 0 := by
  intro e
  have hgen := handleGen_handleMake (i := i) (generationOf_lt (s.history.allocs p i))
  rw [← ht.slotHandle_eq hl, e] at hgen
  obtain ⟨n, hn⟩ := Nat.exists_eq_add_one.mpr (ht.allocs_pos hl)
  have := generationOf_succ_toNat n
  rw [← hn, ← hgen] at this
  simp [handleGen] at this

/-! ### Objects -/

/-- The object of a slot is what it was. -/
structure Keeps (s s' : Grants σ) (p : PoolId) (j k : ℕ) : Prop where
  entry : s'.entries p k = s.entries p k
  live : s'.history.live p j = s.history.live p j

omit cfg ocfg in
theorem Keeps.refl (s : Grants σ) (p : PoolId) (j k : ℕ) : Keeps s s p j k := ⟨rfl, rfl⟩

omit cfg ocfg in
theorem Keeps.trans {m : Grants σ} (h : Keeps s m p j k) (h' : Keeps m s' p j k) : Keeps s s' p j k :=
  ⟨h'.entry.trans h.entry, h'.live.trans h.live⟩

/-- What a creation does: nothing that can be seen, or a free entry and a free slot are taken. -/
theorem objectCreate_cases (ht : s.history.Tracks) (p : PoolId) (content : Option σ) :
    (s.objectCreate p content).1.history.Tracks ∧ (s.objectCreate p content).1.capabilities = s.capabilities ∧
      ((s.objectCreate p content).2 = none ∧ (s.objectCreate p content).1.entries = s.entries ∧
          (s.objectCreate p content).1.history.live = s.history.live ∧
          (s.objectCreate p content).1.history.allocs = s.history.allocs ∨
        ∃ i k x, (s.objectCreate p content).2 = some i ∧ (s.entries p k).handle = 0 ∧ s.history.live p i = none ∧
          (s.objectCreate p content).1.entries = setAt s.entries p k
            { handle := (s.objectCreate p content).1.history.objects.slotHandle p i, content := x } ∧
          (s.objectCreate p content).1.history.live = setAt s.history.live p i (some k) ∧
          (s.objectCreate p content).1.history.allocs = setAt s.history.allocs p i (s.history.allocs p i + 1)) := by
  cases content with
  | none => exact ⟨ht, rfl, .inl ⟨rfl, rfl, rfl, rfl⟩⟩
  | some x =>
    unfold objectCreate
    dsimp only
    split
    · exact ⟨ht, rfl, .inl ⟨rfl, rfl, rfl, rfl⟩⟩
    · rename_i k hk
      have hzero : (s.entries p k).handle = 0 := by simpa using List.find?_some hk
      obtain ⟨ht', hfree⟩ := ht.slotAlloc p k true
      rcases hr : s.history.objects.slotAlloc p k true with ⟨o, _ | i⟩
      · rw [hr] at ht'
        exact ⟨ht', rfl, .inl ⟨rfl, rfl, rfl, rfl⟩⟩
      · rw [hr] at ht' hfree
        exact ⟨ht', rfl, .inr ⟨i, k, x, rfl, hzero, hfree i rfl, rfl, rfl, rfl⟩⟩

theorem Names.mono {i : Incarnation} (h : Names s e i)
    (ha : ∀ p i, s.history.allocs p i ≤ s'.history.allocs p i) : Names s' e i :=
  ⟨h.granted, h.type, h.object, h.slot, h.pos, h.le.trans (ha ..)⟩

/-- A creation keeps the invariant, and all objects that there are. -/
theorem objectCreate_inv (hi : Inv s) (p : PoolId) (content : Option σ) :
    Inv (s.objectCreate p content).1 ∧
      (∀ q j k, s.history.live q j = some k → Keeps s (s.objectCreate p content).1 q j k) ∧
      ∀ i, (s.objectCreate p content).2 = some i → ∃ k, (s.objectCreate p content).1.history.live p i = some k ∧
        ∀ j, s.history.live p j ≠ some k := by
  obtain ⟨ht, hcaps, hcases⟩ := objectCreate_cases hi.tracks p content
  generalize s.objectCreate p content = r at ht hcaps hcases ⊢
  obtain ⟨s', o⟩ := r
  dsimp only at ht hcaps hcases ⊢
  rcases hcases with ⟨rfl, hentries, hlive, hallocs⟩ | ⟨i, k, x, rfl, hzero, hnone, hentries, hlive, hallocs⟩
  · refine ⟨⟨ht, ?_, ?_, ?_⟩, fun q j k _ => ⟨by rw [hentries], by rw [hlive]⟩, by rintro _ ⟨⟩⟩
    · rw [hcaps]
      exact fun t c e he => (hi.cap t c e he).imp_right fun ⟨i, hn⟩ => ⟨i, hn.mono fun p i => by rw [hallocs]⟩
    · rw [hentries, hlive]
      exact hi.used
    · rw [hlive]
      exact hi.single
  · have hother : ∀ j, s.history.live p j ≠ some k := fun j hj => hi.used p j k hj hzero
    have hself : s'.history.live p i = some k := by rw [hlive, setAt_self]
    refine ⟨⟨ht, ?_, ?_, ?_⟩, fun q j k' hl => ⟨?_, ?_⟩, ?_⟩
    · rw [hcaps]
      refine fun t c e he => (hi.cap t c e he).imp_right fun ⟨i, hn⟩ => ⟨i, hn.mono fun q j => ?_⟩
      rw [hallocs, setAt_apply]
      split
      · rename_i h
        rw [h.1, h.2]
        omega
      · exact le_rfl
    · intro q j k' hl
      rw [hentries, setAt_apply]
      split
      · exact slotHandle_ne_zero ht (by rw [hself]; simp)
      · rename_i hne
        rw [hlive, setAt_apply] at hl
        split at hl
        · rename_i h
          cases hl
          exact absurd ⟨h.1, rfl⟩ hne
        · exact hi.used q j k' hl
    · intro q j j' k' hl hl'
      rw [hlive, setAt_apply] at hl hl'
      split at hl <;> split at hl'
      · rename_i h h'
        rw [h.2, h'.2]
      · rename_i h h'
        cases hl
        rw [h.1] at hl'
        exact absurd hl' (hother j')
      · rename_i h h'
        cases hl'
        rw [h'.1] at hl
        exact absurd hl (hother j)
      · exact hi.single q j j' k' hl hl'
    · rw [hentries]
      refine setAt_of_ne ?_
      rintro ⟨rfl, rfl⟩
      exact hother j hl
    · rw [hlive]
      refine setAt_of_ne ?_
      rintro ⟨rfl, rfl⟩
      rw [hnone] at hl
      cases hl
    · rintro _ ⟨⟩
      exact ⟨k, hself, hother⟩

/-- A deletion of another object. -/
theorem objectDelete_keeps [Inhabited σ] (hi : Inv s) {busy : Bool} (hl : s.history.live q j = some k)
    (hne : ¬ (q = p ∧ s.history.objects.objFromHandle h p.objType = some k)) :
    Keeps s (s.objectDelete p h busy).1 q j k := by
  unfold objectDelete
  split
  · exact .refl ..
  · rename_i k' hx
    split
    · exact .refl ..
    · refine ⟨setAt_of_ne ?_, setAt_of_ne ?_⟩
      · rintro ⟨rfl, rfl⟩
        exact hne ⟨rfl, hx⟩
      · rintro ⟨rfl, rfl⟩
        have := live_of_resolves hi.tracks hx
        rw [hl] at this
        exact hne ⟨rfl, hx.trans this.symm⟩

theorem objectDelete_inv [Inhabited σ] (hi : Inv s) (p : PoolId) (h : BitVec 32) (busy : Bool) :
    Inv (s.objectDelete p h busy).1 := by
  unfold objectDelete
  split
  · exact hi
  · rename_i k hx
    split
    · exact hi
    · have hl := live_of_resolves hi.tracks hx
      refine ⟨hi.tracks.slotFree p (handleIdx h), fun t c e he => ?_, fun q j k' hl' => ?_, fun q j j' k' hl₁ hl₂ => ?_⟩
      · exact (hi.cap t c e he).imp_right fun ⟨i, hn⟩ => ⟨i, hn.mono fun _ _ => le_rfl⟩
      · replace hl' : setAt s.history.live p (handleIdx h) none q j = some k' := hl'
        rw [setAt_apply] at hl'
        split at hl'
        · cases hl'
        · rename_i hne
          show (setAt s.entries p k _ q k').handle ≠ 0
          rw [setAt_of_ne]
          · exact hi.used q j k' hl'
          · rintro ⟨rfl, rfl⟩
            exact hne ⟨rfl, hi.single _ _ _ _ hl' hl⟩
      · replace hl₁ : setAt s.history.live p (handleIdx h) none q j = some k' := hl₁
        replace hl₂ : setAt s.history.live p (handleIdx h) none q j' = some k' := hl₂
        rw [setAt_apply] at hl₁ hl₂
        split at hl₁
        · cases hl₁
        · split at hl₂
          · cases hl₂
          · exact hi.single q j j' k' hl₁ hl₂

/-- A call on another object. -/
theorem objectOperate_keeps {effect : σ → σ × Code}
    (hne : ¬ (q = p ∧ s.history.objects.objFromHandle h p.objType = some k)) :
    Keeps s (s.objectOperate p h effect).1 q j k := by
  unfold objectOperate
  split
  · exact .refl ..
  · rename_i k' hx
    refine ⟨setAt_of_ne ?_, rfl⟩
    rintro ⟨rfl, rfl⟩
    exact hne ⟨rfl, hx⟩

theorem objectOperate_inv (hi : Inv s) (p : PoolId) (h : BitVec 32) (effect : σ → σ × Code) :
    Inv (s.objectOperate p h effect).1 := by
  unfold objectOperate
  split
  · exact hi
  · rename_i k hx
    refine ⟨hi.tracks, fun t c e he => ?_, fun q j k' hl => ?_, hi.single⟩
    · exact (hi.cap t c e he).imp_right fun ⟨i, hn⟩ => ⟨i, hn.mono fun _ _ => le_rfl⟩
    · show (setAt s.entries p k _ q k').handle ≠ 0
      rw [setAt_apply]
      split
      · rename_i h
        rw [h.1] at hl
        exact h.2 ▸ hi.used p j k' hl
      · exact hi.used q j k' hl

/-! ### Tables -/

/-- Only the tables change. -/
structure SameObjects (s s' : Grants σ) : Prop where
  history : s'.history = s.history
  entries : s'.entries = s.entries

omit cfg ocfg in
theorem SameObjects.keeps (h : SameObjects s s') : Keeps s s' p j k := ⟨by rw [h.entries], by rw [h.history]⟩

theorem SameObjects.inv (h : SameObjects s s') (hi : Inv s)
    (hc : ∀ t c e, s'.capabilities t c = some e → s.capabilities t c = some e ∨
      (e.granted = none ∧ (e.type = .channel ∨ e.type = .connection)) ∨ ∃ i, Names s e i) : Inv s' := by
  refine ⟨h.history ▸ hi.tracks, fun t c e he => ?_, ?_, ?_⟩
  · have := (hc t c e he).elim (hi.cap t c e) id
    exact this.imp_right fun ⟨i, hn⟩ => ⟨i, hn.mono fun _ _ => by rw [h.history]⟩
  · rw [h.history, h.entries]
    exact hi.used
  · rw [h.history]
    exact hi.single

omit cfg ocfg in
theorem setCap_capabilities {c d : ℕ} {o : Option CapEntry} :
    (s.setCap t c o).capabilities u d = if u = t ∧ d = c then o else s.capabilities u d := by
  by_cases hu : u = t
  · subst hu
    simp [setCap, Function.update_apply]
  · simp [setCap, hu]

omit cfg ocfg in
theorem setCap_same {c : ℕ} {o : Option CapEntry} : SameObjects s (s.setCap t c o) := ⟨rfl, rfl⟩

omit ocfg in
theorem capGrant_eq {c : ℕ} (hg : s.capGrant t e = some (s', c)) :
    SameObjects s s' ∧ ∀ u d e', s'.capabilities u d = some e' → s.capabilities u d = some e' ∨ e' = e := by
  unfold capGrant at hg
  split at hg
  · cases hg
  · cases hg
    refine ⟨setCap_same, fun u d e' he => ?_⟩
    rw [setCap_capabilities] at he
    split at he
    · cases he
      exact .inr rfl
    · exact .inl he

omit ocfg in
theorem capClose_eq (s : Grants σ) (t : TaskId) (cap : ℤ) :
    SameObjects s (s.capClose t cap).1 ∧
      ∀ u d e, (s.capClose t cap).1.capabilities u d = some e → s.capabilities u d = some e := by
  unfold capClose
  split
  · exact ⟨⟨rfl, rfl⟩, fun _ _ _ => id⟩
  · split
    · exact ⟨⟨rfl, rfl⟩, fun _ _ _ => id⟩
    · refine ⟨setCap_same, fun u d e he => ?_⟩
      rw [setCap_capabilities] at he
      split at he
      · cases he
      · exact he

theorem capGrant_inv {c : ℕ} (hi : Inv s) (hg : s.capGrant t e = some (s', c))
    (he : (e.granted = none ∧ (e.type = .channel ∨ e.type = .connection)) ∨ ∃ i, Names s e i) : Inv s' := by
  obtain ⟨hsame, hcaps⟩ := capGrant_eq hg
  refine hsame.inv hi fun u d e' he' => (hcaps u d e' he').imp_right ?_
  rintro rfl
  exact he

theorem capClose_inv (hi : Inv s) (t : TaskId) (cap : ℤ) : Inv (s.capClose t cap).1 := by
  obtain ⟨hsame, hcaps⟩ := capClose_eq s t cap
  exact hsame.inv hi fun u d e he => .inl (hcaps u d e he)

omit ocfg in
/-- What a capability resolves to. -/
theorem capResolve_eq_some {type : ObjType} :
    s.capResolve t cap type right = some h ↔ 0 ≤ cap ∧ cap < cfg.capsPerTask ∧
      ∃ e, s.capabilities t cap.toNat = some e ∧ e.type = type ∧ e.rights &&& right = right ∧ e.object = h := by
  unfold capResolve
  split
  · rename_i hr
    constructor
    · rintro ⟨⟩
    · rintro ⟨h₁, h₂, -⟩
      omega
  · rename_i hr
    cases hc : s.capabilities t cap.toNat with
    | none => simp
    | some e =>
      dsimp only
      constructor
      · intro he
        split at he
        · rename_i hcond
          cases he
          exact ⟨by omega, by omega, e, rfl, hcond.1, hcond.2, rfl⟩
        · cases he
      · rintro ⟨-, -, e', ⟨⟩, htype, hrights, rfl⟩
        rw [if_pos ⟨htype, hrights⟩]

/-! ### Authority -/

/-- The object that a system call finds with a capability. -/
def found (s : Grants σ) (t : TaskId) (p : PoolId) (cap : ℤ) (right : Rights) : Option ℕ :=
  (s.capResolve t cap p.objType right).bind (s.history.objects.objFromHandle · p.objType)

/-- Task `t` has a capability with a right, and it was granted for what is in the slot now, as far as generations of 24
bits tell. -/
def Authorized (s : Grants σ) (t : TaskId) (p : PoolId) (j : ℕ) (cap : ℤ) (right : Rights) : Prop :=
  0 ≤ cap ∧ cap < cfg.capsPerTask ∧ ∃ e i, s.capabilities t cap.toNat = some e ∧ e.rights &&& right = right ∧
    e.granted = some i ∧ i.pool = p ∧ i.slot = j ∧ s.history.allocs p j % (2 ^ 24 - 1) = i.allocs % (2 ^ 24 - 1)

omit cfg ocfg in
theorem objType_injective {p q : PoolId} (h : p.objType = q.objType) : p = q :=
  Option.some.inj ((History.poolId_objType p).symm.trans ((congrArg ObjType.poolId h).trans (History.poolId_objType q)))

/-- **A capability finds** the object in the slot it was granted for, if it is authorized. -/
theorem found_iff (hi : Inv s) :
    s.found t p cap right = some k ↔ ∃ j, s.history.live p j = some k ∧ s.Authorized t p j cap right := by
  unfold found
  rw [Option.bind_eq_some_iff]
  constructor
  · rintro ⟨h, hr, hx⟩
    obtain ⟨h₁, h₂, e, hc, htype, hrights, rfl⟩ := capResolve_eq_some.mp hr
    rcases hi.cap t _ e hc with ⟨-, hne⟩ | ⟨i, hn⟩
    · rw [htype] at hne
      cases p <;> simp [PoolId.objType] at hne
    · obtain rfl := objType_injective (hn.type.symm.trans htype)
      rw [hn.object] at hx
      obtain ⟨hl, hgen⟩ := (hi.tracks.objFromHandle_iff (hn.slot.trans_le (History.maxCount_le_limit _))
        (generationOf_lt _)).mp hx
      refine ⟨i.slot, hl, h₁, h₂, e, i, hc, hrights, hn.granted, rfl, rfl, ?_⟩
      exact (generationOf_eq_iff (hn.pos.trans_le hn.le) hn.pos).mp hgen
  · rintro ⟨_, hl, h₁, h₂, e, i, hc, hrights, hg, rfl, rfl, hmod⟩
    rcases hi.cap t _ e hc with ⟨hnone, -⟩ | ⟨i', hn⟩
    · rw [hg] at hnone
      cases hnone
    · obtain rfl : i = i' := Option.some.inj (hg.symm.trans hn.granted)
      refine ⟨e.object, capResolve_eq_some.mpr ⟨h₁, h₂, e, hc, hn.type, hrights, rfl⟩, ?_⟩
      rw [hn.object]
      refine (hi.tracks.objFromHandle_iff (hn.slot.trans_le (History.maxCount_le_limit _)) (generationOf_lt _)).mpr
        ⟨hl, ?_⟩
      exact (generationOf_eq_iff (hn.pos.trans_le hn.le) hn.pos).mpr hmod

/-! ### System calls -/

variable [Inhabited σ]

theorem scCreate_inv (hi : Inv s) (hp : p = .sem ∨ p = .mq) (rights : Rights) (t : TaskId) (content : Option σ) :
    Inv (s.scCreate p rights t content).1 ∧
      ∀ q j k, s.history.live q j = some k → Keeps s (s.scCreate p rights t content).1 q j k := by
  obtain ⟨hi', hkeeps, hnew⟩ := objectCreate_inv hi p content
  unfold scCreate
  generalize s.objectCreate p content = r at hi' hkeeps hnew
  rcases r with ⟨s', _ | i⟩
  · exact ⟨hi', hkeeps⟩
  · obtain ⟨k, hl, hother⟩ := hnew i rfl
    have hne : s'.history.live p i ≠ none := by rw [hl]; simp
    dsimp only at hi' hkeeps ⊢
    split
    · -- the object that was created is deleted
      refine ⟨objectDelete_inv hi' .., fun q j k' hl' => (hkeeps q j k' hl').trans (objectDelete_keeps hi' ?_ ?_)⟩
      · exact (hkeeps q j k' hl').live.trans hl'
      · rintro ⟨rfl, hx⟩
        rw [resolves_slotHandle hi'.tracks hl] at hx
        cases hx
        exact hother j hl'
    · rename_i m c hg
      refine ⟨capGrant_inv hi' hg
        (.inr ⟨_, rfl, rfl, ?_, hi'.tracks.lt_maxCount hne, hi'.tracks.allocs_pos hne, le_rfl⟩),
        fun q j k' hl' => (hkeeps q j k' hl').trans (capGrant_eq hg).1.keeps⟩
      exact hi'.tracks.slotHandle_eq hne

omit [Inhabited σ] in
theorem scOperate_inv (hi : Inv s) (p : PoolId) (right : Rights) (t : TaskId) (cap : ℤ) (refused : Option Code)
    (effect : σ → σ × Code) :
    Inv (s.scOperate p right t cap refused effect).1 ∧ ∀ q j k,
      ¬ (q = p ∧ s.found t p cap right = some k) → Keeps s (s.scOperate p right t cap refused effect).1 q j k := by
  unfold scOperate found
  cases hr : s.capResolve t cap p.objType right with
  | none => exact ⟨hi, fun q j k _ => .refl ..⟩
  | some h =>
    cases refused with
    | some r => exact ⟨hi, fun q j k _ => .refl ..⟩
    | none => exact ⟨objectOperate_inv hi .., fun q j k hne => objectOperate_keeps hne⟩

theorem scDelete_inv (hi : Inv s) (p : PoolId) (t : TaskId) (cap : ℤ) (busy : Bool) :
    Inv (s.scDelete p t cap busy).1 ∧ ∀ q j k, s.history.live q j = some k →
      ¬ (q = p ∧ s.found t p cap capControl = some k) → Keeps s (s.scDelete p t cap busy).1 q j k := by
  unfold scDelete found
  cases hr : s.capResolve t cap p.objType capControl with
  | none => exact ⟨hi, fun q j k _ _ => .refl ..⟩
  | some h =>
    have hi' := objectDelete_inv hi p h busy
    dsimp only
    split
    · refine ⟨capClose_inv hi' .., fun q j k hl hne => ?_⟩
      exact (objectDelete_keeps hi hl hne).trans (capClose_eq ..).1.keeps
    · exact ⟨hi', fun q j k hl hne => objectDelete_keeps hi hl hne⟩

/-- A system call keeps the invariant, and all objects but the one that it finds. -/
theorem dispatch_inv (hi : Inv s) (t : TaskId) (x : ObjectCall σ) :
    Inv (s.dispatch t x).1 ∧ ∀ q j k, s.history.live q j = some k →
      (∀ cap right, x.needs = some (q, cap, right) → s.found t q cap right ≠ some k) →
        Keeps s (s.dispatch t x).1 q j k := by
  cases x with
  | semCreate content =>
    obtain ⟨hi', hkeeps⟩ := scCreate_inv hi (.inl rfl) (capWait ||| capSignal ||| capControl) t content
    exact ⟨hi', fun q j k hl _ => hkeeps q j k hl⟩
  | mqCreate content =>
    obtain ⟨hi', hkeeps⟩ := scCreate_inv hi (.inr rfl) (capRead ||| capWrite ||| capControl) t content
    exact ⟨hi', fun q j k hl _ => hkeeps q j k hl⟩
  | semWait cap effect =>
    obtain ⟨hi', hkeeps⟩ := scOperate_inv hi .sem capWait t cap none effect
    exact ⟨hi', fun q j k _ hne => hkeeps q j k fun ⟨hq, hf⟩ => hne cap capWait (by rw [hq]; rfl) (by rw [hq, hf])⟩
  | semPost cap effect =>
    obtain ⟨hi', hkeeps⟩ := scOperate_inv hi .sem capSignal t cap none effect
    exact ⟨hi', fun q j k _ hne => hkeeps q j k fun ⟨hq, hf⟩ => hne cap capSignal (by rw [hq]; rfl) (by rw [hq, hf])⟩
  | mqSend cap refused effect =>
    obtain ⟨hi', hkeeps⟩ := scOperate_inv hi .mq capWrite t cap refused effect
    exact ⟨hi', fun q j k _ hne => hkeeps q j k fun ⟨hq, hf⟩ => hne cap capWrite (by rw [hq]; rfl) (by rw [hq, hf])⟩
  | mqRecv cap refused effect =>
    obtain ⟨hi', hkeeps⟩ := scOperate_inv hi .mq capRead t cap refused effect
    exact ⟨hi', fun q j k _ hne => hkeeps q j k fun ⟨hq, hf⟩ => hne cap capRead (by rw [hq]; rfl) (by rw [hq, hf])⟩
  | semDelete cap busy =>
    obtain ⟨hi', hkeeps⟩ := scDelete_inv hi .sem t cap busy
    exact ⟨hi', fun q j k hl hne =>
      hkeeps q j k hl fun ⟨hq, hf⟩ => hne cap capControl (by rw [hq]; rfl) (by rw [hq, hf])⟩
  | mqDelete cap busy =>
    obtain ⟨hi', hkeeps⟩ := scDelete_inv hi .mq t cap busy
    exact ⟨hi', fun q j k hl hne =>
      hkeeps q j k hl fun ⟨hq, hf⟩ => hne cap capControl (by rw [hq]; rfl) (by rw [hq, hf])⟩
  | capClose cap => exact ⟨capClose_inv hi t cap, fun q j k _ _ => (capClose_eq s t cap).1.keeps⟩

/-- **Every step keeps the invariant.** -/
theorem Inv.step {a : GrantAct σ} (hi : Inv s) (hs : s.step a = some s') : Inv s' := by
  cases a with
  | syscall t x =>
    cases hs
    exact (dispatch_inv hi t x).1
  | create p content =>
    simp only [Grants.step] at hs
    split at hs
    · cases hs
      exact (objectCreate_inv hi p content).1
    · cases hs
  | operate p h effect =>
    cases hs
    exact objectOperate_inv hi ..
  | delete p h busy =>
    cases hs
    exact objectDelete_inv hi ..
  | grantDirect t i rights =>
    simp only [Grants.step] at hs
    split at hs
    · rename_i hc
      obtain ⟨⟨m, c⟩, hg, rfl⟩ := Option.map_eq_some_iff.mp hs
      exact capGrant_inv hi hg (.inr ⟨i, rfl, rfl, rfl, hc.1, hc.2.1, hc.2.2⟩)
    · cases hs
  | grantIndex t type index rights =>
    simp only [Grants.step] at hs
    split at hs
    · rename_i hc
      obtain ⟨⟨m, c⟩, hg, rfl⟩ := Option.map_eq_some_iff.mp hs
      exact capGrant_inv hi hg (.inl ⟨rfl, hc⟩)
    · cases hs
  | clear t =>
    cases hs
    refine SameObjects.inv (s := s) ⟨rfl, rfl⟩ hi fun u c e he => .inl ?_
    by_cases hu : u = t
    · subst hu
      simp at he
    · simpa [hu] using he

theorem inv_of_run {as : List (GrantAct σ)} (hr : run step (init : Grants σ) as = some s) : Inv s :=
  (path_iff_run.mpr hr).invariant (fun _ _ _ h _ hs => h.step hs) inv_init

/-- **Authority**: in every run, a system call changes a semaphore or a queue that there is only if the caller has a
capability that was granted for it, with the right that the call needs; and with one, it finds the object. -/
theorem changes_authorized {as : List (GrantAct σ)} (hr : run step (init : Grants σ) as = some s)
    (hl : s.history.live p j = some k) :
    (∀ x, ¬ Keeps s (s.dispatch t x).1 p j k →
      ∃ cap right, x.needs = some (p, cap, right) ∧ s.Authorized t p j cap right) ∧
    ∀ cap right, s.found t p cap right = some k ↔ s.Authorized t p j cap right := by
  have hi := inv_of_run hr
  have hfound : ∀ cap right, s.found t p cap right = some k ↔ s.Authorized t p j cap right := by
    intro cap right
    rw [found_iff hi]
    constructor
    · rintro ⟨j', hl', ha⟩
      exact hi.single p j j' k hl hl' ▸ ha
    · exact fun ha => ⟨j, hl, ha⟩
  refine ⟨fun x hx => ?_, hfound⟩
  by_contra hno
  refine hx ((dispatch_inv hi t x).2 p j k hl fun cap right hneeds hf => hno ⟨cap, right, hneeds, ?_⟩)
  exact (hfound cap right).mp hf

/-! ### Revocation -/

/-- The object of a slot that has been allocated so often is still there. -/
def Alive (s : Grants σ) (i : Incarnation) : Prop :=
  s.history.live i.pool i.slot ≠ none ∧ s.history.allocs i.pool i.slot = i.allocs

/-- What is in a slot later was there before, or the slot has been allocated again. -/
structure Follows (s s' : Grants σ) : Prop where
  le : ∀ p j, s.history.allocs p j ≤ s'.history.allocs p j
  live : ∀ p j, s'.history.live p j ≠ none →
    s.history.live p j ≠ none ∨ s.history.allocs p j < s'.history.allocs p j

omit [Inhabited σ] cfg ocfg in
theorem Follows.of_history (h : s'.history = s.history) : Follows s s' :=
  ⟨fun _ _ => by rw [h], fun _ _ hl => .inl (by rwa [h] at hl)⟩

omit [Inhabited σ] cfg ocfg in
theorem Follows.trans {m : Grants σ} (h : Follows s m) (h' : Follows m s') : Follows s s' := by
  refine ⟨fun p j => (h.le p j).trans (h'.le p j), fun p j hl => ?_⟩
  rcases h'.live p j hl with hl | hlt
  · exact (h.live p j hl).imp_right fun hlt => hlt.trans_le (h'.le p j)
  · exact .inr ((h.le p j).trans_lt hlt)

omit [Inhabited σ] in
theorem objectCreate_follows (hi : Inv s) (p : PoolId) (content : Option σ) :
    Follows s (s.objectCreate p content).1 := by
  obtain ⟨-, -, ⟨-, -, hl, ha⟩ | ⟨i, k, x, -, -, -, -, hl, ha⟩⟩ := objectCreate_cases hi.tracks p content
  · exact ⟨fun q j => by rw [ha], fun q j h => .inl (by rwa [hl] at h)⟩
  · constructor <;> intro q j <;> rw [ha, setAt_apply]
    · split
      · rename_i h
        rw [h.1, h.2]
        exact Nat.le_succ _
      · exact le_rfl
    · rw [hl, setAt_apply]
      split
      · rename_i h
        rw [h.1, h.2]
        exact fun _ => .inr (Nat.lt_succ_self _)
      · exact .inl

theorem objectDelete_follows (s : Grants σ) (p : PoolId) (h : BitVec 32) (busy : Bool) :
    Follows s (s.objectDelete p h busy).1 := by
  unfold objectDelete
  split
  · exact .of_history rfl
  · split
    · exact .of_history rfl
    · refine ⟨fun _ _ => le_rfl, fun q j hl => .inl fun hnone => ?_⟩
      replace hl : setAt s.history.live p (handleIdx h) none q j ≠ none := hl
      rw [setAt_apply] at hl
      split at hl
      · exact hl rfl
      · exact hl hnone

omit [Inhabited σ] in
theorem objectOperate_history (s : Grants σ) (p : PoolId) (h : BitVec 32) (effect : σ → σ × Code) :
    (s.objectOperate p h effect).1.history = s.history := by
  unfold objectOperate
  split <;> rfl

theorem scCreate_follows (hi : Inv s) (p : PoolId) (rights : Rights) (t : TaskId) (content : Option σ) :
    Follows s (s.scCreate p rights t content).1 := by
  have hf := objectCreate_follows hi p content
  unfold scCreate
  generalize s.objectCreate p content = r at hf
  rcases r with ⟨s', _ | i⟩
  · exact hf
  · dsimp only at hf ⊢
    split
    · exact hf.trans (objectDelete_follows ..)
    · rename_i m c hg
      exact hf.trans (.of_history (capGrant_eq hg).1.history)

omit [Inhabited σ] in
theorem scOperate_follows (s : Grants σ) (p : PoolId) (right : Rights) (t : TaskId) (cap : ℤ) (refused : Option Code)
    (effect : σ → σ × Code) : Follows s (s.scOperate p right t cap refused effect).1 := by
  unfold scOperate
  split
  · exact .of_history rfl
  · split
    · exact .of_history rfl
    · exact .of_history (objectOperate_history ..)

theorem scDelete_follows (s : Grants σ) (p : PoolId) (t : TaskId) (cap : ℤ) (busy : Bool) :
    Follows s (s.scDelete p t cap busy).1 := by
  unfold scDelete
  split
  · exact .of_history rfl
  · rename_i h hr
    dsimp only
    split
    · exact (objectDelete_follows s p h busy).trans (.of_history (capClose_eq ..).1.history)
    · exact objectDelete_follows s p h busy

theorem Follows.step {a : GrantAct σ} (hi : Inv s) (hs : s.step a = some s') : Follows s s' := by
  cases a with
  | syscall t x =>
    cases hs
    cases x with
    | semCreate content => exact scCreate_follows hi ..
    | mqCreate content => exact scCreate_follows hi ..
    | semWait cap effect => exact scOperate_follows ..
    | semPost cap effect => exact scOperate_follows ..
    | mqSend cap refused effect => exact scOperate_follows ..
    | mqRecv cap refused effect => exact scOperate_follows ..
    | semDelete cap busy => exact scDelete_follows ..
    | mqDelete cap busy => exact scDelete_follows ..
    | capClose cap => exact .of_history (capClose_eq s t cap).1.history
  | create p content =>
    simp only [Grants.step] at hs
    split at hs
    · cases hs
      exact objectCreate_follows hi p content
    · cases hs
  | operate p h effect =>
    cases hs
    exact .of_history (objectOperate_history ..)
  | delete p h busy =>
    cases hs
    exact objectDelete_follows ..
  | grantDirect t i rights =>
    simp only [Grants.step] at hs
    split at hs
    · obtain ⟨⟨m, c⟩, hg, rfl⟩ := Option.map_eq_some_iff.mp hs
      exact .of_history (capGrant_eq hg).1.history
    · cases hs
  | grantIndex t type index rights =>
    simp only [Grants.step] at hs
    split at hs
    · obtain ⟨⟨m, c⟩, hg, rfl⟩ := Option.map_eq_some_iff.mp hs
      exact .of_history (capGrant_eq hg).1.history
    · cases hs
  | clear t =>
    cases hs
    exact .of_history rfl

theorem follows_of_run {as : List (GrantAct σ)} (hi : Inv s) (hr : run step s as = some s') :
    Inv s' ∧ Follows s s' := by
  refine (path_iff_run.mpr hr).invariant (I := fun m => Inv m ∧ Follows s m) (fun m a m' hm _ hs => ?_)
    ⟨hi, .of_history rfl⟩
  exact ⟨hm.1.step hs, hm.2.trans (.step hm.1 hs)⟩

/-- **Revocation**: once an object is gone, whoever has deleted it, no system call with a capability that was granted
for it changes any object, as long as its slot has not been allocated `2 ^ 24 - 1` times more. -/
theorem revoked_of_gone {as bs : List (GrantAct σ)} {a : GrantAct σ} {m : Grants σ} {i : Incarnation}
    (hr : run step (init : Grants σ) as = some s) (halive : s.Alive i) (hs : s.step a = some m) (hgone : ¬ m.Alive i)
    (hr' : run step m bs = some s') (hcap : s'.capabilities t cap.toNat = some e) (he : e.granted = some i)
    (hlt : s'.history.allocs i.pool i.slot < i.allocs + (2 ^ 24 - 1)) :
    ∀ x p right, x.needs = some (p, cap, right) → ∀ q j k, s'.history.live q j = some k →
      Keeps s' (s'.dispatch t x).1 q j k := by
  have hi := inv_of_run hr
  have him := hi.step hs
  obtain ⟨hi', hf⟩ := follows_of_run him hr'
  have hle := (Follows.step hi hs).le i.pool i.slot
  have hle' := hf.le i.pool i.slot
  rw [halive.2] at hle
  -- what is in the slot later has been allocated later
  have hlater : s'.history.live i.pool i.slot ≠ none → i.allocs < s'.history.allocs i.pool i.slot := by
    intro hl
    rcases hf.live i.pool i.slot hl with hl | hlt
    · exact (lt_of_le_of_ne hle fun h => hgone ⟨hl, h.symm⟩).trans_le hle'
    · exact hle.trans_lt hlt
  intro x p right hneeds q j k hl
  refine (dispatch_inv hi' t x).2 q j k hl fun cap' right' hneeds' hfound => ?_
  rw [hneeds] at hneeds'
  cases hneeds'
  obtain ⟨j', hl', -, -, e', i', hcap', -, he', rfl, rfl, hmod⟩ := (found_iff hi').mp hfound
  rw [hcap] at hcap'
  cases hcap'
  rw [he] at he'
  cases he'
  have := hlater (by rw [hl']; simp)
  omega

end Grants

end Aixos

namespace Aixos.Grants

open Transition

attribute [local instance] Config.default ObjectConfig.default

/-- Task 1 creates a semaphore and may post it; task 2 may not. -/
theorem changes_authorized_post : ∃ s, run step (init : Grants ℕ) [.syscall 1 (.semCreate (some 3))] = some s ∧
    s.history.live .sem 0 = some 0 ∧ s.Authorized 1 .sem 0 0 capSignal ∧
    ∀ x, Keeps s (s.dispatch 2 x).1 .sem 0 0 := by
  have hr : run step (init : Grants ℕ) [.syscall 1 (.semCreate (some 3))] = some _ := rfl
  refine ⟨_, hr, rfl, (changes_authorized (t := 1) hr rfl).2 0 capSignal |>.mp (by decide), fun x => ?_⟩
  by_contra hne
  obtain ⟨cap, right, -, -, -, e, i, hc, -⟩ := (changes_authorized (t := 2) hr rfl).1 x hne
  cases hc

/-- Task 1 deletes its semaphore and creates another in its slot; task 2 has a capability of the first. -/
theorem revoked_of_gone_reused : ∃ s m s', run step (init : Grants ℕ)
      [.syscall 1 (.semCreate (some 3)), .grantDirect 2 { pool := .sem, slot := 0, allocs := 1 } 31] = some s ∧
    s.found 2 .sem 0 capSignal = some 0 ∧ s.step (.syscall 1 (.semDelete 0 false)) = some m ∧
    run step m [.syscall 1 (.semCreate (some 7))] = some s' ∧ s'.found 1 .sem 0 capSignal = some 0 ∧
    ∀ effect, Keeps s' (s'.dispatch 2 (.semPost 0 effect)).1 .sem 0 0 := by
  have hr : run step (init : Grants ℕ)
      [.syscall 1 (.semCreate (some 3)), .grantDirect 2 { pool := .sem, slot := 0, allocs := 1 } 31] = some _ := rfl
  refine ⟨_, _, _, hr, by decide, rfl, rfl, by decide +kernel, fun effect => ?_⟩
  exact revoked_of_gone (a := .syscall 1 (.semDelete 0 false)) (i := { pool := .sem, slot := 0, allocs := 1 }) hr
    ⟨Option.some_ne_none 0, rfl⟩ rfl (fun h => h.1 rfl)
    (show run step _ [.syscall 1 (.semCreate (some 7))] = some _ from rfl) rfl rfl (by decide)
    (.semPost 0 effect) .sem capSignal rfl .sem 0 0 rfl

end Aixos.Grants
