import Aixos.Kernel.Isr
import Aixos.Kernel.Core
import Aixos.Library.Transition
import Mathlib.Data.List.Count

/-!
# Reschedule requests under nested interrupts

A request made at a level of nesting, or under the scheduler lock, is left pending, and whoever
brings the level or the lock count down to zero takes over what is pending and switches once.

* `Account` — the requests that are pending and the switches that are owed, as they should be.
* `Nest.Inv` — what every activation relies on; those above it leave it as they found it.
* `Nest.served_of_path` — every access keeps the account, as long as no counter wraps.
-/

namespace Aixos

open Transition

/-- The requests that are pending, and the switches that are owed for those taken over. -/
structure Account where
  /-- The requests made since the last were taken over. -/
  waiting : ℕ := 0
  /-- The groups of requests that have been taken over and not yet answered by a switch. -/
  owed : ℕ := 0

namespace Account

variable {a a' : Account} {es : List NestEvent}

/-- One event: pending requests are taken over in one group, for which there is one switch. -/
def next (a : Account) : NestEvent → Option Account
  | .deferred => some { a with waiting := a.waiting + 1 }
  | .taken => if a.waiting = 0 then none else some { waiting := 0, owed := a.owed + 1 }
  | .switched => if a.owed = 0 then none else some { a with owed := a.owed - 1 }
  | .direct => some a

/-- There are as many switches as groups of requests, besides those that are owed. -/
theorem count_switched (h : run next a es = some a') :
    es.count .switched + a'.owed = es.count .taken + a.owed := by
  induction es generalizing a with
  | nil =>
    cases h
    simp
  | cons e es ih =>
    rw [run] at h
    obtain ⟨m, hm, h⟩ := Option.bind_eq_some_iff.mp h
    have ih := ih h
    cases e with
    | deferred =>
      cases hm
      simpa using ih
    | direct =>
      cases hm
      simpa using ih
    | taken =>
      rw [next] at hm
      split at hm
      · cases hm
      · cases hm
        simp only [List.count_cons_self, List.count_cons_of_ne (show NestEvent.taken ≠ .switched by decide)] at ih ⊢
        omega
    | switched =>
      rw [next] at hm
      split at hm
      · cases hm
      · cases hm
        simp only [List.count_cons_self, List.count_cons_of_ne (show NestEvent.switched ≠ .taken by decide)] at ih ⊢
        omega

end Account

namespace Nest

variable {s s' : Nest} {a : NestAct} {as : List NestAct} {v v' : IsrVars} {p : Point} {f : Activation}
  {fs : List Activation} {lock : Word} {A : Account}

/-- The level of nesting that an activation sees, with those below it. -/
def level (fs : List Activation) : ℕ := (fs.map Activation.depth).sum

/-- What a function that has got to a point relies on, at a level of nesting and a lock count. -/
def Relies (lock : Word) (n : ℕ) : Point → Prop
  | .exitTestLock | .requestTestLock | .lockAdd | .unlockSub => n = 0
  | .exitTake | .exitSwitch | .requestSwitch | .unlockSwitch => n = 0 ∧ lock = 0
  | .requestStore => n ≠ 0 ∨ lock ≠ 0
  | .exitDrop oldLevel => oldLevel ≠ 0
  | _ => True

/-- The point of an activation is one its function relies on rightly. -/
def Sure (lock : Word) (f : Activation) (fs : List Activation) : Prop :=
  ∀ p, f.point = some p → Relies lock (level (f :: fs)) p

/-- All activations of the stack are where their functions rely on the truth. -/
def AllSure (lock : Word) : List Activation → Prop
  | [] => True
  | f :: fs => Sure lock f fs ∧ AllSure lock fs

/-- A handler is inside a level it has entered, or on its way in or out. -/
def Engaged (f : Activation) : Prop :=
  f.depth ≠ 0 ∨ ∀ p, f.point = some p →
    p = .enterAdd ∨ p = .exitTestLock ∨ p = .exitTake ∨ p = .exitSwitch

/-- All but the last of the stack are engaged. -/
def AllEngaged : List Activation → Prop
  | f :: g :: fs => Engaged f ∧ AllEngaged (g :: fs)
  | _ => True

/-- The activation is about to look for pending requests. -/
def Looks (f : Activation) : Prop := f.point = some .exitTestLock ∨ f.point = some .exitTake

instance (f : Activation) : Decidable (Looks f) := inferInstanceAs (Decidable (_ ∨ _))

/-- The activation has taken requests over and is about to switch. -/
def Owes (f : Activation) : Bool := f.point = some .exitSwitch || f.point = some .unlockSwitch

/-- The invariant of the processor. -/
structure Inv (s : Nest) : Prop where
  /-- The counter is the sum of what the activations have entered. -/
  nesting : s.vars.nesting.toNat = level (s.top :: s.below)
  sure : AllSure s.vars.lockNesting (s.top :: s.below)
  engaged : AllEngaged (s.top :: s.below)
  /-- A request is pending only while something is nested or locked, or somebody is about to look. -/
  pending : s.vars.pending ≠ 0 →
    s.vars.nesting ≠ 0 ∨ s.vars.lockNesting ≠ 0 ∨ ∃ f ∈ s.top :: s.below, Looks f

/-- The account is that of the processor. -/
structure Balanced (s : Nest) (A : Account) : Prop where
  waiting : 0 < A.waiting ↔ s.vars.pending ≠ 0
  owed : A.owed = (s.top :: s.below).countP Owes

/-- No counter is at its greatest value when it is incremented. -/
def NoWrap (s : Nest) : NestAct → Prop
  | .access => (s.top.point = some .enterAdd → s.vars.nesting ≠ 0xFFFFFFFF#32) ∧
      (s.top.point = some .lockAdd → s.vars.lockNesting ≠ 0xFFFFFFFF#32)
  | _ => True

instance (s : Nest) (a : NestAct) : Decidable (NoWrap s a) := by
  cases a <;> unfold NoWrap <;> infer_instance

theorem inv_init : Inv init where
  nesting := rfl
  sure := by
    refine ⟨?_, trivial⟩
    intro p hp
    cases hp
  engaged := trivial
  pending h := absurd rfl h

theorem balanced_init : Balanced init {} where
  waiting := by simp [init]
  owed := by simp [init, Owes]

theorem level_cons (f : Activation) (fs : List Activation) : level (f :: fs) = f.depth + level fs := by
  simp [level]

/-- A new state of what runs, of which nothing below relies on anything that has changed. -/
theorem Inv.put (h : Inv s) {q : Option Point} {d : ℕ} (hn : v'.nesting.toNat = d + level s.below)
    (hs : ∀ p, q = some p → Relies v'.lockNesting v'.nesting.toNat p)
    (hl : v'.lockNesting = s.vars.lockNesting ∨ s.below = [])
    (he : s.below ≠ [] → d ≠ 0 ∨ ∀ p, q = some p → p = .enterAdd ∨ p = .exitTestLock ∨ p = .exitTake ∨ p = .exitSwitch)
    (hp : v'.pending ≠ 0 → v'.nesting ≠ 0 ∨ v'.lockNesting ≠ 0 ∨
      ∃ f ∈ ({ point := q, depth := d } : Activation) :: s.below, Looks f) :
    Inv { vars := v', top := { point := q, depth := d }, below := s.below } where
  nesting := by rw [level_cons]; exact hn
  sure := by
    refine ⟨fun p hq => ?_, ?_⟩
    · rw [level_cons, ← hn]
      exact hs p hq
    · rcases hl with hl | hl
      · show AllSure v'.lockNesting s.below
        rw [hl]
        exact h.sure.2
      · show AllSure v'.lockNesting s.below
        rw [hl]
        trivial
  engaged := by
    have hh := h.engaged
    cases hb : s.below with
    | nil => trivial
    | cons f fs =>
      rw [hb] at hh
      exact ⟨he (by simp [hb]), hh.2⟩
  pending := hp

/-- Who is about to look for requests, if it is not what runs, is below it. -/
theorem Inv.pending_below (h : Inv s) (ht : ¬ Looks s.top) (hp : s.vars.pending ≠ 0) :
    s.vars.nesting ≠ 0 ∨ s.vars.lockNesting ≠ 0 ∨ ∃ f ∈ s.below, Looks f := by
  rcases h.pending hp with h | h | ⟨f, hf, hlf⟩
  · exact .inl h
  · exact .inr (.inl h)
  · rcases List.mem_cons.mp hf with rfl | hf
    · exact absurd hlf ht
    · exact .inr (.inr ⟨f, hf, hlf⟩)

/-- What runs is at a point its function relies on rightly. -/
theorem Inv.relies (h : Inv s) (hp : s.top.point = some p) : Relies s.vars.lockNesting s.vars.nesting.toNat p := by
  rw [h.nesting]
  exact h.sure.1 p hp

theorem Inv.depth_eq (h : Inv s) : s.vars.nesting.toNat = s.top.depth + level s.below := by
  rw [h.nesting, level_cons]

/-- What runs has entered a level, unless it is the task or on its way in or out. -/
theorem Inv.depth_ne_zero (h : Inv s) (hp : s.top.point = some p) (hb : s.below ≠ [])
    (hn : p ≠ .enterAdd ∧ p ≠ .exitTestLock ∧ p ≠ .exitTake ∧ p ≠ .exitSwitch) : s.top.depth ≠ 0 := by
  have he := h.engaged
  cases hbl : s.below with
  | nil => exact absurd hbl hb
  | cons f fs =>
    rw [hbl] at he
    rcases he.1 with hd | hq
    · exact hd
    · rcases hq p hp with e | e | e | e
      · exact absurd e hn.1
      · exact absurd e hn.2.1
      · exact absurd e hn.2.2.1
      · exact absurd e hn.2.2.2

/-- A function goes on without storing anything that matters. -/
theorem Inv.goOn (h : Inv s) (hp : s.top.point = some p)
    (hne : p ≠ .enterAdd ∧ p ≠ .exitTestLock ∧ p ≠ .exitTake ∧ p ≠ .exitSwitch) {q : Option Point}
    (hn : v'.nesting = s.vars.nesting) (hl : v'.lockNesting = s.vars.lockNesting)
    (hpd : v'.pending ≠ 0 → s.vars.pending ≠ 0 ∨ s.vars.nesting ≠ 0 ∨ s.vars.lockNesting ≠ 0)
    (hs : ∀ p, q = some p → Relies s.vars.lockNesting s.vars.nesting.toNat p) :
    Inv { vars := v', top := { point := q, depth := s.top.depth }, below := s.below } := by
  have hlook : ¬ Looks s.top := by
    rintro (e | e)
    · exact hne.2.1 (Option.some.inj (hp.symm.trans e))
    · exact hne.2.2.1 (Option.some.inj (hp.symm.trans e))
  refine h.put (by rw [hn, h.depth_eq]) (by rw [hn, hl]; exact hs) (.inl hl)
    (fun hb => .inl (h.depth_ne_zero hp hb hne)) ?_
  intro hp'
  rw [hn, hl]
  rcases hpd hp' with hp' | hp' | hp'
  · rcases h.pending_below hlook hp' with h | h | ⟨f, hf, hlf⟩
    · exact .inl h
    · exact .inr (.inl h)
    · exact .inr (.inr ⟨f, List.mem_cons_of_mem _ hf, hlf⟩)
  · exact .inl hp'
  · exact .inr (.inl hp')

/-- Only the task changes the lock count: a handler sees a level of its own. -/
theorem Inv.below_eq_nil (h : Inv s) (hp : s.top.point = some p)
    (hne : p ≠ .enterAdd ∧ p ≠ .exitTestLock ∧ p ≠ .exitTake ∧ p ≠ .exitSwitch) (hn : s.vars.nesting.toNat = 0) :
    s.below = [] := by
  by_contra hb
  have h₁ := h.depth_ne_zero hp hb hne
  have h₂ := h.depth_eq
  omega

variable [icfg : IsrConfig]

theorem relies_enterLast {l : Word} {n : ℕ} (h : IsrVars.enterLast l = some p) : Relies lock n p := by
  unfold IsrVars.enterLast at h
  split at h
  · cases h
    trivial
  · cases h

theorem relies_enterHigh {l high : Word} {n : ℕ} (h : IsrVars.enterHigh l high = some p) : Relies lock n p := by
  unfold IsrVars.enterHigh at h
  split at h
  · cases h
    trivial
  · exact relies_enterLast h

/-- **Every access keeps the invariant**, as long as no counter wraps. -/
theorem Inv.access (h : Inv s) (hw : NoWrap s .access) (hp : s.top.point = some p) {r : IsrVars × Option Point}
    (hr : s.vars.access p = some r) :
    Inv { vars := r.1, top := { point := r.2, depth := s.top.depthAfter s.vars p }, below := s.below } := by
  have hrel := h.relies hp
  have hd := h.depth_eq
  cases p with
  | enterAdd =>
    cases hr
    have hne := hw.1 hp
    have hnz : (s.vars.nesting + 1).toNat = s.vars.nesting.toNat + 1 := by
      bv_omega
    refine h.put ?_ (fun p hq => ?_) (.inl rfl) (fun _ => .inl (by simp [Activation.depthAfter])) fun _ => .inl ?_
    · show (s.vars.nesting + 1).toNat = s.top.depth + 1 + level s.below
      omega
    · cases hq
      trivial
    · show s.vars.nesting + 1 ≠ 0
      bv_omega
  | enterLoadHigh level =>
    cases hr
    exact h.goOn hp (by simp) rfl rfl .inl fun p hq => relies_enterHigh hq
  | enterRaiseHigh level high =>
    rw [IsrVars.access] at hr
    split at hr
    · cases hr
      exact h.goOn hp (by simp) rfl rfl .inl fun p hq => relies_enterLast hq
    · cases hr
      exact h.goOn hp (by simp) rfl rfl .inl fun p hq => relies_enterHigh hq
  | enterOverflow =>
    cases hr
    refine h.goOn hp (by simp) rfl rfl .inl fun p hq => ?_
    split at hq
    · cases hq
      trivial
    · cases hq
  | panicked => cases hr
  | exitLoad =>
    cases hr
    refine h.goOn hp (by simp) rfl rfl .inl fun p hq => ?_
    split at hq
    · cases hq
    · rename_i hn
      cases hq
      exact hn
  | exitDrop oldLevel =>
    rw [IsrVars.access] at hr
    split at hr
    · rename_i hold
      cases hr
      have hdep : s.top.depth ≠ 0 := by
        by_cases hb : s.below = []
        · have hold' : oldLevel ≠ 0 := hrel
          rw [hb, show level [] = 0 from rfl] at hd
          bv_omega
        · exact h.depth_ne_zero hp hb (by simp)
      have hdrop : (oldLevel - 1).toNat = s.top.depth - 1 + level s.below := by
        bv_omega
      have hafter : s.top.depthAfter s.vars (.exitDrop oldLevel) = s.top.depth - 1 := by
        simp [Activation.depthAfter, hold]
      rw [hafter]
      refine h.put hdrop (fun p hq => ?_) (.inl rfl) (fun _ => ?_) fun hpd => ?_
      · split at hq
        · rename_i h0
          cases hq
          show (oldLevel - 1).toNat = 0
          rw [h0]
          rfl
        · cases hq
      · right
        intro p hq
        split at hq
        · cases hq
          simp
        · cases hq
      · by_cases h0 : oldLevel - 1 = 0
        · exact .inr (.inr ⟨_, List.mem_cons_self .., .inl (if_pos h0)⟩)
        · exact .inl h0
    · rename_i hold
      cases hr
      have hafter : s.top.depthAfter s.vars (.exitDrop oldLevel) = s.top.depth := by
        simp [Activation.depthAfter, hold]
      rw [hafter]
      exact h.goOn hp (by simp) rfl rfl .inl fun p hq => by cases hq; trivial
  | exitTestLock =>
    cases hr
    refine h.put hd (fun p hq => ?_) (.inl rfl) (fun _ => ?_) fun hpd => ?_
    · split at hq
      · rename_i hl
        cases hq
        exact ⟨hrel, hl⟩
      · cases hq
    · right
      intro p hq
      split at hq
      · cases hq
        simp
      · cases hq
    · by_cases hl : s.vars.lockNesting = 0
      · exact .inr (.inr ⟨_, List.mem_cons_self .., .inr (if_pos hl)⟩)
      · exact .inr (.inl hl)
  | exitTake =>
    cases hr
    refine h.put hd (fun p hq => ?_) (.inl rfl) (fun _ => ?_) fun hpd => absurd rfl hpd
    · split at hq
      · cases hq
        exact hrel
      · cases hq
    · right
      intro p hq
      split at hq
      · cases hq
        simp
      · cases hq
  | exitSwitch =>
    cases hr
    have hlook : ¬ Looks s.top := by
      rw [Looks, hp]
      simp
    refine h.put hd (fun p hq => by cases hq) (.inl rfl) (fun _ => .inr fun p hq => by cases hq) fun hpd => ?_
    rcases h.pending_below hlook hpd with hh | hh | ⟨f, hf, hlf⟩
    · exact .inl hh
    · exact .inr (.inl hh)
    · exact .inr (.inr ⟨f, List.mem_cons_of_mem _ hf, hlf⟩)
  | requestTestNesting =>
    cases hr
    refine h.goOn hp (by simp) rfl rfl .inl fun p hq => ?_
    cases hq
    split
    · rename_i hn
      left
      bv_omega
    · rename_i hn
      show s.vars.nesting.toNat = 0
      bv_omega
  | requestTestLock =>
    cases hr
    refine h.goOn hp (by simp) rfl rfl .inl fun p hq => ?_
    cases hq
    split
    · rename_i hl
      exact .inr hl
    · rename_i hl
      exact ⟨hrel, not_not.mp hl⟩
  | requestStore =>
    cases hr
    refine h.goOn hp (by simp) rfl rfl (fun _ => ?_) fun p hq => by cases hq
    rcases hrel with hn | hl
    · exact .inr (.inl (by bv_omega))
    · exact .inr (.inr hl)
  | requestSwitch =>
    cases hr
    exact h.goOn hp (by simp) rfl rfl .inl fun p hq => by cases hq
  | lockTest =>
    cases hr
    refine h.goOn hp (by simp) rfl rfl .inl fun p hq => ?_
    split at hq
    · cases hq
    · rename_i hn
      cases hq
      show s.vars.nesting.toNat = 0
      bv_omega
  | lockAdd =>
    cases hr
    have hb : s.below = [] := h.below_eq_nil hp (by simp) hrel
    have hne := hw.2 hp
    refine h.put hd (fun p hq => by cases hq) (.inr hb) (fun hb' => absurd hb hb') fun _ => .inr (.inl ?_)
    show s.vars.lockNesting + 1 ≠ 0
    bv_omega
  | unlockTest =>
    cases hr
    refine h.goOn hp (by simp) rfl rfl .inl fun p hq => ?_
    split at hq
    · cases hq
    · rename_i hn
      cases hq
      show s.vars.nesting.toNat = 0
      bv_omega
  | unlockSub =>
    have hb : s.below = [] := h.below_eq_nil hp (by simp) hrel
    rw [IsrVars.access] at hr
    split at hr
    · cases hr
      exact h.goOn hp (by simp) rfl rfl .inl fun p hq => by cases hq
    · split at hr
      · rename_i hl
        cases hr
        refine h.put hd (fun p hq => ?_) (.inr hb) (fun hb' => absurd hb hb') fun hpd => absurd rfl hpd
        split at hq
        · cases hq
          exact ⟨hrel, hl⟩
        · cases hq
      · rename_i hl
        cases hr
        exact h.put hd (fun p hq => by cases hq) (.inr hb) (fun hb' => absurd hb hb') fun _ => .inr (.inl hl)
  | unlockSwitch =>
    cases hr
    exact h.goOn hp (by simp) rfl rfl .inl fun p hq => by cases hq

/-- **Every step keeps the invariant**, as long as no counter wraps. -/
theorem inv_step (h : Inv s) (hw : NoWrap s a) (hs : s.step a = some s') : Inv s' := by
  cases a with
  | call c =>
    rw [step] at hs
    split at hs
    · rename_i hc
      cases hs
      have hlook : ¬ Looks s.top := by
        rw [Looks, hc.1]
        simp
      refine h.put h.depth_eq (fun p hq => ?_) (.inl rfl) (fun hb => .inl (hc.2.resolve_left hb)) fun hpd => ?_
      · cases hq
        cases c <;> trivial
      · rcases h.pending_below hlook hpd with hh | hh | ⟨f, hf, hlf⟩
        · exact .inl hh
        · exact .inr (.inl hh)
        · exact .inr (.inr ⟨f, List.mem_cons_of_mem _ hf, hlf⟩)
    · cases hs
  | access =>
    rw [step] at hs
    split at hs
    · cases hs
    · rename_i p hp
      obtain ⟨r, hr, rfl⟩ := Option.map_eq_some_iff.mp hs
      exact h.access hw hp hr
  | interrupt =>
    cases hs
    refine ⟨?_, ⟨?_, h.sure⟩, ⟨.inr fun p hp => .inl (Option.some.inj hp).symm, h.engaged⟩, fun hpd => ?_⟩
    · rw [level_cons, ← h.nesting]
      exact (Nat.zero_add _).symm
    · intro p hp
      cases hp
      trivial
    · rcases h.pending hpd with hh | hh | ⟨f, hf, hlf⟩
      · exact .inl hh
      · exact .inr (.inl hh)
      · exact .inr (.inr ⟨f, List.mem_cons_of_mem _ hf, hlf⟩)
  | handlerReturn =>
    rw [step] at hs
    split at hs
    · cases hs
    · rename_i f below hb
      split at hs
      · rename_i hc
        cases hs
        have hlook : ¬ Looks s.top := by
          rw [Looks, hc.1]
          simp
        have hd := h.depth_eq
        have hsure := h.sure
        have hen := h.engaged
        rw [hb] at hd hsure hen
        refine ⟨?_, hsure.2, hen.2, fun hpd => ?_⟩
        · rw [hd, hc.2, Nat.zero_add]
        · have hh := h.pending_below hlook hpd
          rwa [hb] at hh
      · cases hs

omit icfg in
/-- What runs owes a switch more, or one less. -/
theorem Balanced.put (h : Balanced s A) {q : Option Point} {d : ℕ} {A' : Account}
    (hw : 0 < A'.waiting ↔ v'.pending ≠ 0)
    (ho : A'.owed + (Owes s.top).toNat = A.owed + (Owes { point := q, depth := d }).toNat) :
    Balanced { vars := v', top := { point := q, depth := d }, below := s.below } A' where
  waiting := hw
  owed := by
    have h₁ := h.owed
    have hcons : ∀ f : Activation, (f :: s.below).countP Owes = s.below.countP Owes + (Owes f).toNat := by
      intro f
      rw [List.countP_cons]
      cases Owes f <;> rfl
    rw [hcons] at h₁
    show A'.owed = (({ point := q, depth := d } : Activation) :: s.below).countP Owes
    rw [hcons]
    omega

omit icfg in
/-- What runs owes nothing, before and after. -/
theorem Balanced.keep (h : Balanced s A) {q : Option Point} {d : ℕ} (hw : v'.pending = s.vars.pending)
    (h₁ : Owes s.top = false) (h₂ : Owes { point := q, depth := d } = false) :
    Balanced { vars := v', top := { point := q, depth := d }, below := s.below } A :=
  h.put (by rw [hw, h.waiting]) (by rw [h₁, h₂])

omit icfg in
theorem owes_eq {d : ℕ} (hp : s.top.point = some p) : Owes s.top = Owes { point := some p, depth := d } := by
  rw [Owes, Owes, hp]

theorem owes_enterLast {l : Word} {d : ℕ} : Owes { point := IsrVars.enterLast l, depth := d } = false := by
  unfold IsrVars.enterLast
  split <;> rfl

theorem owes_enterHigh {l high : Word} {d : ℕ} : Owes { point := IsrVars.enterHigh l high, depth := d } = false := by
  unfold IsrVars.enterHigh
  split
  · rfl
  · exact owes_enterLast

/-- Every access keeps the account. -/
theorem Balanced.access (hA : Balanced s A) (hp : s.top.point = some p) {r : IsrVars × Option Point}
    (hr : s.vars.access p = some r) :
    ∃ A', run Account.next A (s.vars.event p) = some A' ∧
      Balanced { vars := r.1, top := { point := r.2, depth := s.top.depthAfter s.vars p }, below := s.below } A' := by
  have ho := owes_eq (d := 0) hp
  cases p with
  | enterAdd =>
    cases hr
    exact ⟨A, rfl, hA.keep rfl ho rfl⟩
  | enterLoadHigh level =>
    cases hr
    exact ⟨A, rfl, hA.keep rfl ho owes_enterHigh⟩
  | enterRaiseHigh level high =>
    rw [IsrVars.access] at hr
    split at hr
    · cases hr
      exact ⟨A, rfl, hA.keep rfl ho owes_enterLast⟩
    · cases hr
      exact ⟨A, rfl, hA.keep rfl ho owes_enterHigh⟩
  | enterOverflow =>
    cases hr
    refine ⟨A, rfl, hA.keep rfl ho ?_⟩
    split <;> rfl
  | panicked => cases hr
  | exitLoad =>
    cases hr
    refine ⟨A, rfl, hA.keep rfl ho ?_⟩
    split <;> rfl
  | exitDrop oldLevel =>
    rw [IsrVars.access] at hr
    split at hr
    · cases hr
      refine ⟨A, rfl, hA.keep rfl ho ?_⟩
      split <;> rfl
    · cases hr
      exact ⟨A, rfl, hA.keep rfl ho rfl⟩
  | exitTestLock =>
    cases hr
    refine ⟨A, rfl, hA.keep rfl ho ?_⟩
    split <;> rfl
  | exitTake =>
    cases hr
    have ho : Owes s.top = false := ho
    by_cases hpd : s.vars.pending = 0
    · refine ⟨A, by simp [IsrVars.event, hpd, run], hA.keep hpd.symm ho ?_⟩
      simp [hpd, Owes]
    · -- the requests that are pending become one switch that is owed
      have hw : A.waiting ≠ 0 := Nat.pos_iff_ne_zero.mp (hA.waiting.mpr hpd)
      have he : s.vars.event .exitTake = [.taken] := if_pos hpd
      refine ⟨{ waiting := 0, owed := A.owed + 1 }, by simp [he, run, Account.next, hw], hA.put ?_ ?_⟩
      · simp
      · rw [ho, if_pos hpd]
        rfl
  | exitSwitch =>
    cases hr
    have ho : Owes s.top = true := ho
    have hpos : A.owed ≠ 0 := by
      rw [hA.owed, List.countP_cons_of_pos ho]
      omega
    refine ⟨{ A with owed := A.owed - 1 }, by simp [IsrVars.event, run, Account.next, hpos], hA.put hA.waiting ?_⟩
    rw [ho]
    show A.owed - 1 + 1 = A.owed + 0
    omega
  | requestTestNesting =>
    cases hr
    refine ⟨A, rfl, hA.keep rfl ho ?_⟩
    split <;> rfl
  | requestTestLock =>
    cases hr
    refine ⟨A, rfl, hA.keep rfl ho ?_⟩
    split <;> rfl
  | requestStore =>
    cases hr
    have ho : Owes s.top = false := ho
    refine ⟨{ A with waiting := A.waiting + 1 }, rfl, hA.put ?_ ?_⟩
    · simp
    · rw [ho]
      rfl
  | requestSwitch =>
    cases hr
    exact ⟨A, rfl, hA.keep rfl ho rfl⟩
  | lockTest =>
    cases hr
    refine ⟨A, rfl, hA.keep rfl ho ?_⟩
    split <;> rfl
  | lockAdd =>
    cases hr
    exact ⟨A, rfl, hA.keep rfl ho rfl⟩
  | unlockTest =>
    cases hr
    refine ⟨A, rfl, hA.keep rfl ho ?_⟩
    split <;> rfl
  | unlockSub =>
    have ho : Owes s.top = false := ho
    rw [IsrVars.access] at hr
    split at hr
    · rename_i h0
      cases hr
      exact ⟨A, by simp [IsrVars.event, h0, run], hA.keep rfl ho rfl⟩
    · rename_i h0
      split at hr
      · rename_i h1
        cases hr
        by_cases hpd : s.vars.pending = 0
        · refine ⟨A, by simp [IsrVars.event, hpd, run], hA.keep hpd.symm ho ?_⟩
          simp [hpd, Owes]
        · have hw : A.waiting ≠ 0 := Nat.pos_iff_ne_zero.mp (hA.waiting.mpr hpd)
          have he : s.vars.event .unlockSub = [.taken] := if_pos ⟨h0, h1, hpd⟩
          refine ⟨{ waiting := 0, owed := A.owed + 1 }, by simp [he, run, Account.next, hw], hA.put ?_ ?_⟩
          · simp
          · rw [ho, if_pos hpd]
            rfl
      · rename_i h1
        cases hr
        have he : s.vars.event .unlockSub = [] := if_neg fun hh => h1 hh.2.1
        exact ⟨A, by simp [he, run], hA.keep rfl ho rfl⟩
  | unlockSwitch =>
    cases hr
    have ho : Owes s.top = true := ho
    have hpos : A.owed ≠ 0 := by
      rw [hA.owed, List.countP_cons_of_pos ho]
      omega
    refine ⟨{ A with owed := A.owed - 1 }, by simp [IsrVars.event, run, Account.next, hpos], hA.put hA.waiting ?_⟩
    rw [ho]
    show A.owed - 1 + 1 = A.owed + 0
    omega

/-- **The account is kept**: requests are taken over only when some are pending, and every switch is
owed. -/
theorem balanced_step (hA : Balanced s A) (hs : s.step a = some s') :
    ∃ A', run Account.next A (s.obs a) = some A' ∧ Balanced s' A' := by
  cases a with
  | call c =>
    rw [step] at hs
    split at hs
    · rename_i hc
      cases hs
      refine ⟨A, rfl, hA.keep rfl ?_ ?_⟩
      · simp [Owes, hc.1]
      · cases c <;> rfl
    · cases hs
  | access =>
    rw [step] at hs
    split at hs
    · cases hs
    · rename_i p hp
      obtain ⟨r, hr, rfl⟩ := Option.map_eq_some_iff.mp hs
      obtain ⟨A', hrun, hA'⟩ := hA.access hp hr
      exact ⟨A', by rwa [obs, hp], hA'⟩
  | interrupt =>
    cases hs
    refine ⟨A, rfl, hA.waiting, ?_⟩
    rw [List.countP_cons_of_neg (by simp [Owes, NestCall.start])]
    exact hA.owed
  | handlerReturn =>
    rw [step] at hs
    split at hs
    · cases hs
    · rename_i f below hb
      split at hs
      · rename_i hc
        cases hs
        refine ⟨A, rfl, hA.waiting, ?_⟩
        have := hA.owed
        rwa [List.countP_cons_of_neg (by simp [Owes, hc.1]), hb] at this
      · cases hs

/-! ### Every run -/

omit icfg in
/-- A switch is requested of the processor by this action. -/
def Switches (s : Nest) (a : NestAct) : Prop := .switched ∈ s.obs a ∨ .direct ∈ s.obs a

omit icfg in
/-- Where a switch is requested of the processor, nothing is nested or locked. -/
theorem Inv.switches (h : Inv s) (hsw : Switches s a) : s.vars.nesting = 0 ∧ s.vars.lockNesting = 0 := by
  have key : ∀ p, s.top.point = some p → p = .exitSwitch ∨ p = .unlockSwitch ∨ p = .requestSwitch →
      s.vars.nesting = 0 ∧ s.vars.lockNesting = 0 := by
    intro p hp hp'
    have hrel := h.relies hp
    have hrel : s.vars.nesting.toNat = 0 ∧ s.vars.lockNesting = 0 := by
      rcases hp' with rfl | rfl | rfl <;> exact hrel
    exact ⟨by bv_omega, hrel.2⟩
  cases a with
  | access =>
    cases hp : s.top.point with
    | none => simp [Switches, obs, hp] at hsw
    | some p =>
      refine key p hp ?_
      cases p <;> simp_all [Switches, obs, IsrVars.event]
  | call c => simp [Switches, obs] at hsw
  | interrupt => simp [Switches, obs] at hsw
  | handlerReturn => simp [Switches, obs] at hsw

/-- **No reschedule request is lost or duplicated**, as long as no counter wraps. Where a switch is
requested of the processor, nothing is nested or locked; pending requests are taken over in groups, with one
switch for each; and when no call is in progress, no switch is owed, and requests are pending
only if something is nested or locked. -/
theorem served_of_path (hp : Path (Next step) NoWrap init as s) :
    (∀ a s', s.step a = some s' → Switches s a → s.vars.nesting = 0 ∧ s.vars.lockNesting = 0) ∧
    ∃ A, run Account.next {} (trace step obs init as) = some A ∧
      (0 < A.waiting ↔ s.vars.pending ≠ 0) ∧
      (trace step obs init as).count .switched + A.owed = (trace step obs init as).count .taken ∧
      (s.Quiet → A.owed = 0 ∧ (s.vars.pending ≠ 0 → s.vars.nesting ≠ 0 ∨ s.vars.lockNesting ≠ 0)) := by
  have hinv : Inv s := hp.invariant (fun _ _ _ h hw hs => inv_step h hw hs) inv_init
  obtain ⟨A, hA, hb⟩ := hp.simulates (R := Balanced)
    (fun _ _ _ _ hA _ hs => balanced_step hA hs) balanced_init
  refine ⟨fun a _ _ hsw => hinv.switches hsw, A, hA, hb.waiting, Account.count_switched hA, fun hq => ⟨?_, fun hpd => ?_⟩⟩
  · rw [hb.owed, hq.2, List.countP_cons_of_neg (by simp [Owes, hq.1])]
    rfl
  · have hlook : ¬ Looks s.top := by
      rw [Looks, hq.1]
      simp
    rcases hinv.pending_below hlook hpd with h | h | ⟨f, hf, -⟩
    · exact .inl h
    · exact .inr h
    · rw [hq.2] at hf
      cases hf

end Nest

/-! ### Functions that are not interrupted -/

/-- The accesses of a function in a row: the variables at the end, and whether it requests a switch
of the processor. -/
def IsrVars.perform [IsrConfig] : ℕ → IsrVars → Point → Option (IsrVars × Bool)
  | 0, _, _ => none
  | n + 1, v, p =>
    match v.access p with
    | none => none
    | some (v', none) => some (v', (v.event p).any fun e => e = .switched || e = .direct)
    | some (v', some q) => v'.perform n q

/-- The variables of `isr.c` in the core. -/
structure IsrVars.Matches (v : IsrVars) (c : Core) : Prop where
  nesting : v.nesting.toNat = c.isrNesting
  lock : v.lockNesting.toNat = c.schedLock
  pending : v.pending ≠ 0#32 ↔ c.reschedulePending = true

namespace IsrVars

variable [icfg : IsrConfig] {v : IsrVars} {c : Core}

omit icfg in
theorem Matches.nesting_iff (h : v.Matches c) : v.nesting = 0#32 ↔ c.isrNesting = 0 := by
  rw [← h.nesting]
  bv_omega

omit icfg in
theorem Matches.lock_iff (h : v.Matches c) : v.lockNesting = 0#32 ↔ c.schedLock = 0 := by
  rw [← h.lock]
  bv_omega

/-- What a function that is not interrupted leaves is what it leaves in the core. -/
def Performs (v : IsrVars) (f : NestCall) (c c' : Core) : Prop :=
  ∃ v' b, v.perform 5 f.start = some (v', b) ∧ v'.Matches c' ∧ c'.switchRequested = (c.switchRequested || b)

theorem performs_rescheduleRequest (h : v.Matches c) : v.Performs .rescheduleRequest c c.rescheduleRequest := by
  have hn := h.nesting_iff
  have hl := h.lock_iff
  by_cases h₁ : v.nesting = 0#32
  · by_cases h₂ : v.lockNesting = 0#32
    · have hc : c.rescheduleRequest = { c with switchRequested := true } := by
        simp [Core.rescheduleRequest, Core.inIsr, Core.schedIsLocked, hn.mp h₁, hl.mp h₂]
      rw [hc]
      exact ⟨v, true, by simp [NestCall.start, perform, access, event, h₁, h₂], ⟨h.nesting, h.lock, h.pending⟩, by simp⟩
    · have hc : c.rescheduleRequest = { c with reschedulePending := true } := by
        simp [Core.rescheduleRequest, Core.inIsr, Core.schedIsLocked, mt hl.mpr h₂]
      rw [hc]
      exact ⟨{ v with pending := 1 }, false, by simp [NestCall.start, perform, access, event, h₁, h₂],
        ⟨h.nesting, h.lock, by simp⟩, by simp⟩
  · have hc : c.rescheduleRequest = { c with reschedulePending := true } := by
      simp [Core.rescheduleRequest, Core.inIsr, Core.schedIsLocked, mt hn.mpr h₁]
    rw [hc]
    exact ⟨{ v with pending := 1 }, false, by simp [NestCall.start, perform, access, event, h₁],
      ⟨h.nesting, h.lock, by simp⟩, by simp⟩

theorem performs_schedLock (h : v.Matches c) (hw : v.lockNesting ≠ 0xFFFFFFFF#32) :
    v.Performs .schedLock c c.schedLockTask.1 := by
  have hn := h.nesting_iff
  by_cases h₁ : v.nesting = 0#32
  · have hc : c.schedLockTask.1 = { c with schedLock := c.schedLock + 1 } := by
      simp [Core.schedLockTask, Core.inIsr, hn.mp h₁]
    have hadd : (v.lockNesting + 1).toNat = c.schedLock + 1 := by
      rw [← h.lock]
      bv_omega
    rw [hc]
    exact ⟨{ v with lockNesting := v.lockNesting + 1 }, false, by simp [NestCall.start, perform, access, event, h₁],
      ⟨h.nesting, hadd, h.pending⟩, by simp⟩
  · have hc : c.schedLockTask.1 = c := by simp [Core.schedLockTask, Core.inIsr, mt hn.mpr h₁]
    rw [hc]
    exact ⟨v, false, by simp [NestCall.start, perform, access, event, h₁], h, by simp⟩

theorem performs_schedUnlock (h : v.Matches c) : v.Performs .schedUnlock c c.schedUnlockTask.1 := by
  have hn := h.nesting_iff
  have hl := h.lock_iff
  by_cases h₁ : v.nesting = 0#32
  · by_cases h₂ : v.lockNesting = 0#32
    · have hc : c.schedUnlockTask.1 = c := by simp [Core.schedUnlockTask, Core.inIsr, hn.mp h₁, hl.mp h₂]
      rw [hc]
      exact ⟨v, false, by simp [NestCall.start, perform, access, event, h₁, h₂], h, by simp⟩
    · have hsub : (v.lockNesting - 1#32).toNat = c.schedLock - 1 := by
        rw [← h.lock]
        bv_omega
      by_cases h₃ : v.lockNesting - 1#32 = 0#32
      · have h₃' : c.schedLock - 1 = 0 := by rw [← hsub, h₃]; rfl
        by_cases h₄ : v.pending = 0#32
        · have hp : c.reschedulePending = false := by simpa using mt h.pending.mpr (not_not.mpr h₄)
          have hc : c.schedUnlockTask.1 = { c with schedLock := c.schedLock - 1 } := by
            simp [Core.schedUnlockTask, Core.inIsr, hn.mp h₁, mt hl.mpr h₂, hp]
          rw [hc]
          refine ⟨{ v with lockNesting := v.lockNesting - 1#32, pending := 0 }, false, ?_,
            ⟨h.nesting, hsub, by simp [hp]⟩, by simp⟩
          simp [NestCall.start, perform, access, event, h₁, h₂, h₃, h₄]
        · have hp : c.reschedulePending = true := h.pending.mp h₄
          have hc : c.schedUnlockTask.1 =
              { c with schedLock := c.schedLock - 1, reschedulePending := false, switchRequested := true } := by
            simp [Core.schedUnlockTask, Core.inIsr, hn.mp h₁, mt hl.mpr h₂, hp, h₃']
          rw [hc]
          refine ⟨{ v with lockNesting := v.lockNesting - 1#32, pending := 0 }, true, ?_,
            ⟨h.nesting, hsub, by simp⟩, by simp⟩
          simp [NestCall.start, perform, access, event, h₁, h₂, h₃, h₄]
      · have h₃' : c.schedLock - 1 ≠ 0 := by
          rw [← hsub]
          bv_omega
        have hc : c.schedUnlockTask.1 = { c with schedLock := c.schedLock - 1 } := by
          simp [Core.schedUnlockTask, Core.inIsr, hn.mp h₁, mt hl.mpr h₂, h₃']
        rw [hc]
        refine ⟨{ v with lockNesting := v.lockNesting - 1#32 }, false, ?_, ⟨h.nesting, hsub, h.pending⟩, by simp⟩
        simp [NestCall.start, perform, access, event, h₁, h₂, h₃]
  · have hc : c.schedUnlockTask.1 = c := by simp [Core.schedUnlockTask, Core.inIsr, mt hn.mpr h₁]
    rw [hc]
    exact ⟨v, false, by simp [NestCall.start, perform, access, event, h₁], h, by simp⟩

theorem performs_isrExit (h : v.Matches c) : v.Performs .isrExit c c.isrExit := by
  have hn := h.nesting_iff
  have hl := h.lock_iff
  by_cases h₁ : v.nesting = 0#32
  · have hc : c.isrExit = c := by simp [Core.isrExit, hn.mp h₁]
    rw [hc]
    exact ⟨v, false, by simp [NestCall.start, perform, access, event, h₁], h, by simp⟩
  · have hsub : (v.nesting - 1#32).toNat = c.isrNesting - 1 := by
      rw [← h.nesting]
      bv_omega
    have hstay : c.isrExit = { c with isrNesting := c.isrNesting - 1 } → v.nesting - 1#32 ≠ 0#32 ∨ v.lockNesting ≠ 0#32 →
        v.Performs .isrExit c c.isrExit := by
      intro hc hor
      rw [hc]
      refine ⟨{ v with nesting := v.nesting - 1#32 }, false, ?_, ⟨hsub, h.lock, h.pending⟩, by simp⟩
      by_cases h₂ : v.nesting - 1#32 = 0#32
      · simp [NestCall.start, perform, access, event, h₁, h₂, hor.resolve_left (not_not.mpr h₂)]
      · simp [NestCall.start, perform, access, event, h₁, h₂]
    by_cases h₂ : v.nesting - 1#32 = 0#32
    · have h₂' : c.isrNesting - 1 = 0 := by rw [← hsub, h₂]; rfl
      by_cases h₃ : v.lockNesting = 0#32
      · by_cases h₄ : v.pending = 0#32
        · have hp : c.reschedulePending = false := by simpa using mt h.pending.mpr (not_not.mpr h₄)
          have hc : c.isrExit = { c with isrNesting := c.isrNesting - 1 } := by
            simp [Core.isrExit, mt hn.mpr h₁, hp]
          rw [hc]
          refine ⟨{ v with nesting := v.nesting - 1#32, pending := 0 }, false, ?_, ⟨hsub, h.lock, by simp [hp]⟩, by simp⟩
          simp [NestCall.start, perform, access, event, h₁, h₂, h₃, h₄]
        · have hp : c.reschedulePending = true := h.pending.mp h₄
          have hc : c.isrExit =
              { c with isrNesting := c.isrNesting - 1, reschedulePending := false, switchRequested := true } := by
            simp [Core.isrExit, mt hn.mpr h₁, hp, h₂', hl.mp h₃]
          rw [hc]
          refine ⟨{ v with nesting := v.nesting - 1#32, pending := 0 }, true, ?_, ⟨hsub, h.lock, by simp⟩, by simp⟩
          simp [NestCall.start, perform, access, event, h₁, h₂, h₃, h₄]
      · exact hstay (by simp [Core.isrExit, mt hn.mpr h₁, mt hl.mpr h₃]) (.inr h₃)
    · have h₂' : c.isrNesting - 1 ≠ 0 := by
        rw [← hsub]
        bv_omega
      exact hstay (by simp [Core.isrExit, mt hn.mpr h₁, h₂']) (.inl h₂)

theorem performs_isrEnter (h : v.Matches c) (hw : v.nesting ≠ 0xFFFFFFFF#32) (hpanic : icfg.nestingPanic = false) :
    v.Performs .isrEnter c c.isrEnter := by
  have hadd : (v.nesting + 1).toNat = c.isrNesting + 1 := by
    rw [← h.nesting]
    bv_omega
  have hstart : v.perform 5 NestCall.isrEnter.start =
      ({ v with nesting := v.nesting + 1 } : IsrVars).perform 4 (.enterLoadHigh (v.nesting + 1)) := rfl
  rw [Performs, hstart]
  generalize v.nesting + 1 = l at hadd ⊢
  have hm : ∀ high o : Word, ({ v with nesting := l, highWatermark := high, overflows := o } : IsrVars).Matches
      c.isrEnter := fun _ _ => ⟨hadd, h.lock, h.pending⟩
  refine ⟨{ v with
      nesting := l
      highWatermark := if v.highWatermark < l then l else v.highWatermark
      overflows := if icfg.nestingMax < l.toNat then v.overflows + 1 else v.overflows }, false, ?_, hm _ _,
    by simp [Core.isrEnter]⟩
  by_cases h₁ : v.highWatermark < l <;> by_cases h₂ : icfg.nestingMax < l.toNat <;>
    simp [perform, access, event, enterHigh, enterLast, h₁, h₂, hpanic]

end IsrVars

end Aixos

namespace Aixos.Nest

open Transition

attribute [local instance] IsrConfig.default

/-- The task locks the scheduler and asks twice; a handler interrupts its unlocking before the last
access and asks once more. -/
def askedUnderLock : List NestAct :=
  [.call .schedLock, .access, .access] ++
  [.call .rescheduleRequest, .access, .access, .access, .call .rescheduleRequest, .access, .access, .access] ++
  [.call .schedUnlock, .access, .interrupt, .access, .access, .access,
    .call .rescheduleRequest, .access, .access, .call .isrExit, .access, .access, .access, .handlerReturn] ++
  [.access, .access]

theorem askedUnderLock_served : ∃ s A, run step init askedUnderLock = some s ∧ s.Quiet ∧
    run Account.next {} (trace step obs init askedUnderLock) = some A ∧ A.owed = 0 ∧
    (trace step obs init askedUnderLock).count .deferred = 3 ∧
    (trace step obs init askedUnderLock).count .switched = 1 := by
  obtain ⟨s, hp, hq⟩ := exists_path step NoWrap init askedUnderLock (fun s => decide s.Quiet) (by decide +kernel)
  have hq := of_decide_eq_true hq
  obtain ⟨-, A, hA, -, -, h⟩ := served_of_path hp
  exact ⟨s, A, hp.run_eq, hq, hA, (h hq).1, by decide +kernel, by decide +kernel⟩

/-- The task locks the scheduler `n` times. -/
def locks : ℕ → List NestAct
  | 0 => []
  | n + 1 => [.call .schedLock, .access, .access] ++ locks n

theorem run_locks {v : IsrVars} (hv : v.nesting = 0) (n : ℕ) :
    run step { vars := v, top := {}, below := [] } (locks n) =
      some { vars := { v with lockNesting := v.lockNesting + BitVec.ofNat 32 n }, top := {}, below := [] } := by
  induction n generalizing v with
  | zero => simp [locks, run]
  | succ n ih =>
    have h : run step { vars := v, top := {}, below := [] } [.call .schedLock, .access, .access] =
        some { vars := { v with lockNesting := v.lockNesting + 1 }, top := {}, below := [] } := by
      simp [run, step, NestCall.start, IsrVars.access, hv, Activation.depthAfter]
    have hadd : v.lockNesting + 1 + BitVec.ofNat 32 n = v.lockNesting + BitVec.ofNat 32 (n + 1) := by
      bv_omega
    rw [locks, run_append, h, Option.bind_some, ih (v := { v with lockNesting := v.lockNesting + 1 }) hv, hadd]

/-- A request is made under `2 ^ 32 - 1` locks; one more brings the count to zero. -/
def lockWrapped : List NestAct :=
  locks (2 ^ 32 - 1) ++ ([.call .rescheduleRequest, .access, .access, .access] ++ locks 1)

/-- Then the request is pending, and nothing is nested or locked. -/
theorem lockWrapped_pending : ∃ s, run step init lockWrapped = some s ∧ s.Quiet ∧ s.vars.pending ≠ 0 ∧
    s.vars.nesting = 0 ∧ s.vars.lockNesting = 0 := by
  refine ⟨{ vars := { pending := 1 }, top := {}, below := [] }, ?_, by decide, by decide, rfl, rfl⟩
  have h₁ : run step init (locks (2 ^ 32 - 1)) =
      some { vars := { lockNesting := BitVec.allOnes 32 }, top := {}, below := [] } := run_locks (v := {}) rfl _
  have h₂ : run step { vars := { lockNesting := BitVec.allOnes 32 }, top := {}, below := [] }
      [.call .rescheduleRequest, .access, .access, .access] =
      some { vars := { lockNesting := BitVec.allOnes 32, pending := 1 }, top := {}, below := [] } := by
    rfl
  rw [lockWrapped, run_append, h₁, Option.bind_some, run_append, h₂, Option.bind_some, run_locks rfl]
  rfl

end Aixos.Nest
