import Aixos.Library.Transition
import Aixos.Protection.Regions

/-!
# What the kernel grants on behalf of a task

The check of the kernel and the protection units read the same list of regions in different ways.

* `Task.step` — an accepted `aixos_task_mpu_region_add`.
* `GrantsNoMore` — the property: what the kernel grants, the unit permits on every byte.
* `NoneShadowed` — the condition: no region that decides for a byte lacks a right there that an
  earlier answer of the kernel gives.
* `Task.grantsNoMore_iff` — after every sequence of accepted calls, the property holds on each of the
  architectures exactly when the condition does.
-/

namespace Aixos.Mpu

open Transition

/-- The arguments of `aixos_task_mpu_region_add`, and whether it is called from an interrupt. -/
structure RegionAdd where
  /-- `aixos_in_isr()` -/
  inIsr : Bool := false
  /-- `base` -/
  base : Word
  /-- `size` -/
  size : Word
  /-- `attr` -/
  attr : Word

/-- **The kernel grants no more than the unit permits**: a range that `aixos_mpu_task_allows` accepts
for an access is permitted for it byte by byte. -/
def GrantsNoMore (t : Task) (permits : Word → Access → Bool) : Prop :=
  ∀ base size x, t.grants base size x = true → ∀ a ∈ span base size, permits a x = true

/-- On every region that is not inside an earlier one, the regions that the unit lets decide there give
all that the region gives. -/
def NoneShadowed (t : Task) (around : Word → Option Region) (gives : Region → Access → Bool) : Prop :=
  ∀ pre r post, t.regions = pre ++ r :: post → (∀ q ∈ pre, ¬ r.Inside q) →
    ∀ a d, r.Contains a → around a = some d → ∀ x, r.gives x = true → gives d x = true

variable [cfg : MpuConfig]

namespace Task

variable {t t₀ : Task} {as : List RegionAdd}

/-- An accepted call. -/
def step (t : Task) (a : RegionAdd) : Option Task := (t.regionAdd a.inIsr a.base a.size a.attr).toOption

/-- A task as `mpu.c` leaves it. -/
structure Ok (t : Task) : Prop where
  user : t.user = true
  valid : t.Valid
  length : t.regions.length ≤ cfg.regionsPerTask

theorem ok_init (hu : t.user = true) : Ok t.init where
  user := hu
  valid r hr := by
    unfold init at hr
    dsimp only at hr
    split at hr
    · rename_i hv
      obtain rfl := List.mem_singleton.mp hr
      exact Region.sized_of_valid (Bool.and_eq_true_iff.mp hv).2
    · cases hr
  length := by
    unfold init
    dsimp only
    split
    · exact cfg.regionsPerTask_pos
    · exact Nat.zero_le _

theorem ok_step {t' : Task} {a : RegionAdd} (hk : Ok t) (h : t.step a = some t') : Ok t' := by
  unfold step regionAdd at h
  split at h
  · cases h
  · split at h
    · cases h
    · rename_i hv
      split at h
      · cases h
      · split at h
        · cases h
        · rename_i hl
          cases h
          refine ⟨hk.user, fun r hr => ?_, ?_⟩
          · rcases List.mem_append.mp hr with hr | hr
            · exact hk.valid r hr
            · obtain rfl := List.mem_singleton.mp hr
              exact Region.sized_of_valid (by simpa using hv)
          · rw [List.length_append]
            exact not_le.mp hl

theorem ok_run (hu : t₀.user = true) (h : run step t₀.init as = some t) : Ok t :=
  (path_iff_run.mpr h).invariant (fun _ _ _ hk _ h => ok_step hk h) (ok_init hu)

omit cfg in
/-- Where a unit lets one of the regions decide for each byte, it is no stricter than the kernel exactly when no
region is shadowed. -/
theorem grantsNoMore_iff_of_deciding (hu : t.user = true) (hv : t.Valid) {permits : Word → Access → Bool}
    {around : Word → Option Region} {gives : Region → Access → Bool}
    (hsome : ∀ r ∈ t.regions, ∀ a, r.Contains a → (around a).isSome)
    (hp : ∀ a d, around a = some d → ∀ x, permits a x = gives d x) :
    GrantsNoMore t permits ↔ NoneShadowed t around gives := by
  unfold GrantsNoMore NoneShadowed
  rw [grants_le_iff hu hv (P := fun a x => permits a x = true)]
  constructor
  · intro h pre r post e hpre a d ha hd x hx
    rw [← hp a d hd x]
    exact h pre r post e hpre x hx a ha
  · intro h pre r post e hpre x hx a ha
    obtain ⟨d, hd⟩ := Option.isSome_iff_exists.mp (hsome r (by simp [e]) a ha)
    show permits a x = true
    rw [hp a d hd x]
    exact h pre r post e hpre a d ha hd x hx

/-- **After every sequence of accepted calls**, the kernel grants no more than the unit of ARMv7-M permits
exactly when no region is shadowed by a last one, and no more than that of RISC-V exactly when none is
shadowed by a first one. -/
theorem grantsNoMore_iff (hu : t₀.user = true) (h : run step t₀.init as = some t) (m : ArmMpu) :
    (GrantsNoMore t (m.configureTask t).permits ↔ NoneShadowed t (ArmMpu.lastAround t.regions) Region.armGives) ∧
      (GrantsNoMore t (Pmp.configureTask t).permits ↔ NoneShadowed t (Pmp.firstAround t.regions) Region.gives) := by
  have hk := ok_run hu h
  constructor
  · refine grantsNoMore_iff_of_deciding hk.user hk.valid (fun r hr a ha => ?_)
      fun a d hd x => ArmMpu.permits_eq hk.user hk.valid hk.length hd x
    exact List.find?_isSome.mpr ⟨r, List.mem_reverse.mpr hr, decide_eq_true ha⟩
  · refine grantsNoMore_iff_of_deciding hk.user hk.valid (fun r hr a ha => ?_)
      fun a d hd x => Pmp.permits_eq hk.user hk.valid (hk.length.trans cfg.regionsPerTask_le) hd x
    exact List.find?_isSome.mpr ⟨r, hr, decide_eq_true ha⟩

end Task

end Aixos.Mpu

namespace Aixos.Mpu.Task

open Transition

attribute [local instance] MpuConfig.default

/-- A user task with a stack of 4 KiB in the RAM of either architecture. -/
def withStack (base : Word) : Task := { user := true, stackBase := base, stackSize := 4096 }

/-- The unit before anything is written. -/
def resetMpu : ArmMpu := { ctrl := 0, rnr := 0, rbar := fun _ => 0, rasr := fun _ => 0 }

/-- The first kilobyte of the stack may also be executed: the later region gives more than the earlier one. -/
theorem innerExec_grantsNoMore : ∃ t,
    run step (withStack 0x20000000).init [{ base := 0x20000000, size := 1024, attr := 7 }] = some t ∧
      t.grants 0x20000000 2048 .write = true ∧ t.grants 0x20000000 2048 .exec = false ∧
      GrantsNoMore t (resetMpu.configureTask t).permits ∧ GrantsNoMore t (Pmp.configureTask t).permits := by
  have h : run step (withStack 0x20000000).init [{ base := 0x20000000, size := 1024, attr := 7 }] =
      some { withStack 0x20000000 with regions := [⟨0x20000000, 4096, 3⟩, ⟨0x20000000, 1024, 7⟩] } := rfl
  -- the second region is inside the first, and gives all that the first gives
  have key {around : Word → Option Region} {gives : Region → Access → Bool}
      (hmem : ∀ a d, around a = some d → d = ⟨0x20000000, 4096, 3⟩ ∨ d = ⟨0x20000000, 1024, 7⟩)
      (hgives : ∀ x : Access, x ≠ .exec → gives ⟨0x20000000, 4096, 3⟩ x = true ∧ gives ⟨0x20000000, 1024, 7⟩ x = true) :
      NoneShadowed { withStack 0x20000000 with regions := [⟨0x20000000, 4096, 3⟩, ⟨0x20000000, 1024, 7⟩] } around gives := by
    intro pre r post e hpre a d _ hd x hx
    rcases pre with _ | ⟨q, _ | ⟨q', pre⟩⟩
    · simp only [List.nil_append, List.cons.injEq] at e
      obtain ⟨rfl, -⟩ := e
      have hne : x ≠ .exec := by
        rintro rfl
        exact absurd hx (by decide)
      rcases hmem a d hd with rfl | rfl
      · exact (hgives x hne).1
      · exact (hgives x hne).2
    · simp only [List.cons_append, List.nil_append, List.cons.injEq] at e
      obtain ⟨rfl, rfl, -⟩ := e
      exact absurd (by decide) (hpre _ (List.mem_singleton.mpr rfl))
    · simp at e
  obtain ⟨harm, hriscv⟩ := grantsNoMore_iff rfl h resetMpu
  refine ⟨_, h, by decide, by decide, harm.mpr (key (fun a d hd => ?_) fun x hx => ?_),
    hriscv.mpr (key (fun a d hd => ?_) fun x hx => ?_)⟩
  · exact List.mem_pair.mp (List.mem_reverse.mp (List.mem_of_find?_eq_some hd))
  · cases x with
    | exec => exact absurd rfl hx
    | read | write => decide
  · exact List.mem_pair.mp (List.mem_of_find?_eq_some hd)
  · cases x with
    | exec => exact absurd rfl hx
    | read | write => decide

/-- The first kilobyte of the stack becomes read-only for the unit of ARMv7-M, and not for the kernel. On RISC-V
a read-only kilobyte comes before a region of four that can be written. -/
theorem innerConst_not_grantsNoMore :
    (∀ m : ArmMpu, ∃ t, run step (withStack 0x20000000).init [{ base := 0x20000000, size := 1024, attr := 1 }] = some t ∧
      t.grants 0x20000000 2048 .write = true ∧ ¬ GrantsNoMore t (m.configureTask t).permits) ∧
    ∃ t, run step (withStack 0x80010000).init
        [{ base := 0x80020000, size := 1024, attr := 1 }, { base := 0x80020000, size := 4096, attr := 3 }] = some t ∧
      t.grants 0x80020000 2048 .write = true ∧ ¬ GrantsNoMore t (Pmp.configureTask t).permits := by
  constructor
  · intro m
    have h : run step (withStack 0x20000000).init [{ base := 0x20000000, size := 1024, attr := 1 }] =
        some { withStack 0x20000000 with regions := [⟨0x20000000, 4096, 3⟩, ⟨0x20000000, 1024, 1⟩] } := rfl
    refine ⟨_, h, by decide, fun hg => ?_⟩
    have hw := hg 0x20000000 2048 .write (by decide) 0x20000000 ⟨by decide, by decide⟩
    have hk := ok_run rfl h
    rw [ArmMpu.permits_eq hk.user hk.valid hk.length (r := ⟨0x20000000, 1024, 1⟩) (by decide)] at hw
    exact absurd hw (by decide)
  · refine ⟨_, rfl, by decide, fun hg => ?_⟩
    exact absurd (hg 0x80020000 2048 .write (by decide) 0x80020000 ⟨by decide, by decide⟩) (by decide +kernel)

end Aixos.Mpu.Task
