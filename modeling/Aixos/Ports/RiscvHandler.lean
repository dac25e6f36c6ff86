import Aixos.Kernel.RiscvTrap
import Aixos.Library.SavedContexts

/-!
# The two halves of the RISC-V trap handler

What the straight-line code of `portasm.s` does to a hart: many stores, and many loads.

* `Hart.saveCode_mem` — memory after the first half.
* `Hart.restoreCode_eq` — registers after the second half.
-/

namespace Aixos.Riscv

open SavedContexts

/-! ### The code that saves and restores -/

namespace Hart

variable {h : Hart}

theorem execAll_append (h : Hart) (is js : List Instr) (hs : ∀ i ∈ is, ∀ g : Hart, g.skip i = 0) :
    h.execAll 0 (is ++ js) = (is.foldl exec h).execAll 0 js := by
  induction is generalizing h with
  | nil => rfl
  | cons i is ih =>
    rw [List.cons_append, execAll, hs i (List.mem_cons_self ..), ih _ fun j hj => hs j (List.mem_cons_of_mem _ hj)]
    rfl

/-- The words of some registers, stored each in its place behind `f`. -/
def stored (m : Word → Word) (f : Word) (v : Reg → Word) (rs : List Reg) : Word → Word :=
  storeAll m (fun r => f + regOff r) v rs

theorem foldl_sw (h : Hart) (rs : List Reg) :
    (rs.map fun r => Instr.sw r (regOff r) 2).foldl exec h = { h with mem := stored h.mem (h.reg 2) h.reg rs } := by
  induction rs generalizing h with
  | nil => rfl
  | cons r rs ih =>
    rw [List.map_cons, List.foldl_cons, ih]
    rfl

theorem regOff_inj {f : Word} {r q : Reg} (h : f + regOff r = f + regOff q) : r = q := by
  have h := congrArg BitVec.toNat ((BitVec.add_right_inj f).mp h)
  rw [regOff, regOff, BitVec.toNat_ofNat, BitVec.toNat_ofNat, Nat.mod_eq_of_lt (by omega),
    Nat.mod_eq_of_lt (by omega)] at h
  exact Fin.ext (by omega)

theorem stored_of_mem {m : Word → Word} {f : Word} {v : Reg → Word} {rs : List Reg} {r : Reg} (hr : r ∈ rs) :
    stored m f v rs (f + regOff r) = v r :=
  storeAll_of_mem (d := fun r => f + regOff r) (fun _ _ e => regOff_inj e) hr

theorem stored_of_ne {m : Word → Word} {f a : Word} {v : Reg → Word} {rs : List Reg}
    (ha : ∀ r ∈ rs, a ≠ f + regOff r) : stored m f v rs a = m a := storeAll_of_ne ha

/-- The registers of a list, loaded each from its place behind `x2`. -/
theorem foldl_lw (h : Hart) (rs : List Reg) (h2 : 2 ∉ rs) :
    (rs.map fun r => Instr.lw r (regOff r) 2).foldl exec h =
      { h with regs := fun r => if r ∈ rs then h.mem (h.regs 2 + regOff r) else h.regs r } := by
  induction rs generalizing h with
  | nil => simp
  | cons r rs ih =>
    have hr : r ≠ 2 := fun e => h2 (e ▸ List.mem_cons_self ..)
    rw [List.map_cons, List.foldl_cons, ih _ fun hm => h2 (List.mem_cons_of_mem _ hm)]
    have e2 : (h.exec (.lw r (regOff r) 2)).regs 2 = h.regs 2 := Function.update_of_ne (Ne.symm hr) _ _
    have em : (h.exec (.lw r (regOff r) 2)).mem = h.mem := rfl
    rw [e2, em]
    have hregs : (fun q => if q ∈ rs then h.mem (h.regs 2 + regOff q) else (h.exec (.lw r (regOff r) 2)).regs q) =
        fun q => if q ∈ r :: rs then h.mem (h.regs 2 + regOff q) else h.regs q := by
      funext q
      by_cases hq : q ∈ rs
      · rw [if_pos hq, if_pos (List.mem_cons_of_mem _ hq)]
      · rw [if_neg hq]
        show Function.update h.regs r (h.mem (h.regs 2 + regOff r)) q = _
        by_cases e : q = r
        · rw [e, Function.update_self, if_pos (List.mem_cons_self ..)]
        · rw [Function.update_of_ne e, if_neg (by simp [e, hq])]
    rw [hregs]
    rfl

theorem skip_sw (rs : List Reg) : ∀ i ∈ rs.map fun r => Instr.sw r (regOff r) 2, ∀ g : Hart, g.skip i = 0 := by
  intro i hi g
  obtain ⟨r, -, rfl⟩ := List.mem_map.mp hi
  rfl

theorem skip_lw (rs : List Reg) : ∀ i ∈ rs.map fun r => Instr.lw r (regOff r) 2, ∀ g : Hart, g.skip i = 0 := by
  intro i hi g
  obtain ⟨r, -, rfl⟩ := List.mem_map.mp hi
  rfl

variable [sym : Symbols]

/-- The last words of the frame at `f`. -/
def withStatus (m : Word → Word) (f mepc mstatus : Word) : Word → Word :=
  Function.update (Function.update (Function.update m (f + regOff 2) (f + frameSize)) (f + mepcOff) mepc)
    (f + mstatusOff) mstatus

theorem storeStatus_mem (h : Hart) : (h.execAll 0 storeStatus).mem =
    if withStatus h.mem (h.regs 2) h.mepc h.mstatus sym.gCurTask = 0#32 then
      withStatus h.mem (h.regs 2) h.mepc h.mstatus
    else
      Function.update (withStatus h.mem (h.regs 2) h.mepc h.mstatus)
        (withStatus h.mem (h.regs 2) h.mepc h.mstatus sym.gCurTask) (h.regs 2) := by
  by_cases hz : withStatus h.mem (h.regs 2) h.mepc h.mstatus sym.gCurTask = 0#32
  · rw [if_pos hz]
    unfold withStatus at hz ⊢
    simp [storeStatus, execAll, exec, skip, setReg, store, reg, csr, hz]
  · rw [if_neg hz]
    unfold withStatus at hz ⊢
    simp [storeStatus, execAll, exec, skip, setReg, store, reg, csr, hz]

/-- The frame that `trap_handler` makes. -/
def frame (h : Hart) : Word := h.regs 2 - frameSize

/-- Memory when the frame is complete. -/
def framed (h : Hart) : Word → Word :=
  withStatus (stored h.mem h.frame h.regs storedRegs) h.frame h.mepc h.mstatus

/-- **The first half of the handler**: the frame is stored, and its address in the control block, if there is one. -/
theorem saveCode_mem (h : Hart) : (h.execAll 0 saveCode).mem =
    if h.framed sym.gCurTask = 0#32 then h.framed else Function.update h.framed (h.framed sym.gCurTask) h.frame := by
  have hskip : ∀ i ∈ [Instr.addi 2 2 (-frameSize)], ∀ g : Hart, g.skip i = 0 := by
    intro i hi g
    obtain rfl := List.mem_singleton.mp hi
    rfl
  have hframe : (h.exec (.addi 2 2 (-frameSize))).reg 2 = h.frame := by
    show h.regs 2 + -frameSize = h.regs 2 - frameSize
    rw [BitVec.sub_eq_add_neg]
  have hstored : stored h.mem h.frame (h.exec (.addi 2 2 (-frameSize))).reg storedRegs =
      stored h.mem h.frame h.regs storedRegs := by
    unfold stored storeAll
    refine List.foldl_ext _ _ _ fun m r hr => ?_
    have hr2 : r ≠ 2 ∧ r ≠ 0 := by
      revert hr r
      decide
    have e : (h.exec (.addi 2 2 (-frameSize))).reg r = h.regs r := by
      show (if r = 0 then 0 else Function.update h.regs 2 _ r) = _
      rw [if_neg hr2.2, Function.update_of_ne hr2.1]
    rw [e]
  rw [saveCode, execAll_append _ _ _ hskip, execAll_append _ _ _ (skip_sw _), List.foldl_cons, List.foldl_nil, foldl_sw,
    storeStatus_mem]
  have e2 : (h.exec (.addi 2 2 (-frameSize))).regs 2 = h.frame := hframe
  have em : (h.exec (.addi 2 2 (-frameSize))).mem = h.mem := rfl
  dsimp only
  rw [hframe, e2, em, hstored]
  rfl

/-- **The second half of the handler**: every register is loaded from its place in the frame. -/
theorem restoreCode_eq (h : Hart) :
    (h.execAll 0 restoreCode).mem = h.mem ∧
    (h.execAll 0 restoreCode).mepc = h.mem (h.mem (h.mem sym.gCurTask) + mepcOff) ∧
    (h.execAll 0 restoreCode).mstatus = h.mem (h.mem (h.mem sym.gCurTask) + mstatusOff) ∧
    ∀ r : Reg, r ≠ 0 → (h.execAll 0 restoreCode).regs r = h.mem (h.mem (h.mem sym.gCurTask) + regOff r) := by
  have hskip : ∀ i ∈ loadStatus, ∀ g : Hart, g.skip i = 0 := by
    intro i hi g
    simp only [loadStatus, List.mem_cons, List.not_mem_nil, or_false] at hi
    rcases hi with rfl | rfl | rfl | rfl | rfl | rfl | rfl <;> rfl
  have hload : loadStatus.foldl exec h =
      { h with
        regs := Function.update (Function.update h.regs 2 (h.mem (h.mem sym.gCurTask))) 5
          (h.mem (h.mem (h.mem sym.gCurTask) + mstatusOff))
        mepc := h.mem (h.mem (h.mem sym.gCurTask) + mepcOff)
        mstatus := h.mem (h.mem (h.mem sym.gCurTask) + mstatusOff) } := by
    have hregs : ∀ a b : Word, Function.update (Function.update (Function.update h.regs 5 a) 2 b) 5 =
        Function.update (Function.update h.regs 2 b) 5 := by
      intro a b
      funext d q
      by_cases e5 : q = 5
      · rw [e5, Function.update_self, Function.update_self]
      · by_cases e2 : q = 2
        · rw [e2]
          simp
        · simp [e5, e2]
    simp [loadStatus, exec, setReg, reg, setCsr, hregs]
  have hloaded : ∀ r : Reg, r ≠ 0 → r ≠ 2 → r ∈ storedRegs := by decide
  rw [restoreCode, execAll_append _ _ _ hskip, execAll_append _ _ _ (skip_lw _), foldl_lw _ _ (by decide), hload]
  refine ⟨rfl, rfl, rfl, fun r hr => ?_⟩
  by_cases e : r = 2
  · rw [e]
    rfl
  · show Function.update _ 2 _ r = _
    rw [Function.update_of_ne e]
    exact if_pos (hloaded r hr e)

end Hart

end Aixos.Riscv
