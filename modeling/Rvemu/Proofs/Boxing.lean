/-
NaN boxing over runs.

A single-precision value in a 64-bit register is meant to have ones in its upper
half.  Of the instructions with a single-precision result four write them; the
others assign the lower half and leave the upper one as they find it.

So the invariant, that every register last written with a single-precision result
is boxed, is kept by a step exactly if the destination of an instruction of the
second kind was boxed before it, and kept by a run exactly if that is so at each of
its steps.  Who wrote a register last is no part of the machine; it is noted along
the run.
-/
import Rvemu.Proofs.Boot

namespace Rvemu

open Steps

/-- The instructions that produce a single-precision result. -/
def InstType.isSingle (t : InstType) : Bool :=
  t matches .flw | .fmv_w_x | .fsgnj_s | .fsgnjn_s | .fsgnjx_s
    | .fmadd_s | .fmsub_s | .fnmsub_s | .fnmadd_s
    | .fadd_s | .fsub_s | .fmul_s | .fdiv_s | .fsqrt_s | .fmin_s | .fmax_s
    | .fcvt_s_w | .fcvt_s_wu | .fcvt_s_l | .fcvt_s_lu | .fcvt_s_d

/-- A single-precision result is written boxed, or into the lower half. -/
theorem isSingle_iff (t : InstType) :
    t.isSingle = true ↔ t.fpEffect = .boxed ∨ t.fpEffect = .lowHalf := by
  cases t <;> decide

/-- The instruction that wrote each floating-point register last. -/
abbrev Writers := RegNo → Option InstType

/-- The note a step leaves: the instruction just executed wrote its destination, if it has one
among the floating-point registers. -/
def noteWriter (_ m : Machine) (g : Writers) : Writers :=
  if m.inst.type.fpEffect = .untouched then g
  else Function.update g m.inst.rd (some m.inst.type)

/-- The upper half is all ones. -/
def FpReg.IsBoxed (r : FpReg) : Prop := r.upper = BitVec.allOnes 32

/-- Every register last written with a single-precision result is boxed. -/
def Boxed (t : Machine × Writers) : Prop :=
  ∀ r ty, t.2 r = some ty → ty.isSingle = true → (t.1.state.fp r).IsBoxed

/-- If the next instruction assigns the lower half of a register, that register is boxed. -/
def BoxedBefore (t : Machine × Writers) : Prop :=
  ∀ raw i, t.1.state.load t.1.state.pc 4 = .ok raw → decodeInst t.1.inst raw = .ok i →
    i.type.fpEffect = .lowHalf → (t.1.state.fp i.rd).IsBoxed

instance (r : FpReg) : Decidable r.IsBoxed := inferInstanceAs (Decidable (_ = _))

instance (t : Machine × Writers) : Decidable (BoxedBefore t) :=
  match h : t.1.state.load t.1.state.pc 4 >>= decodeInst t.1.inst with
  | .ok i => decidable_of_iff (i.type.fpEffect = .lowHalf → (t.1.state.fp i.rd).IsBoxed) (by
      refine ⟨fun hbox raw j hload hdec hl => ?_, fun hall hl => ?_⟩
      · rw [hload, ok_bind, hdec] at h
        cases h
        exact hbox hl
      · obtain ⟨raw, hload, hdec⟩ := bind_ok_inv h
        exact hall raw i hload hdec hl)
  | .error e => .isTrue fun raw i hload hdec _ => by
      rw [hload, ok_bind, hdec] at h
      cases h

/-- One instruction. -/
theorem boxed_step {fpu : HostFpu} {os : Os} {t t' : Machine × Writers} (hI : Boxed t)
    (h : traced (emuStep fpu os) noteWriter t = .ok t') : BoxedBefore t ↔ Boxed t' := by
  obtain ⟨hstep, hnote⟩ := traced_inv h
  obtain ⟨s, i, r, hexec, hfp, hinst, -⟩ := emuStep_inv hstep
  obtain ⟨raw, hload, hdec⟩ := hexec.decodes
  obtain ⟨v, hallows, hupd⟩ := hexec.fpRegs
  have hreg (x : RegNo) : t'.1.state.fp x = Function.update t.1.state.fpRegs r.rd v x := by
    show t'.1.state.fpRegs x = _
    rw [hfp, hupd]
  have hnote' : t'.2 = if r.type.fpEffect = .untouched then t.2
      else Function.update t.2 r.rd (some r.type) := by
    rw [hnote, noteWriter, hinst, hexec.type, hexec.rd]
  constructor
  · intro hbefore x ty hx hty
    rw [hreg]
    by_cases hu : r.type.fpEffect = .untouched
    · rw [hnote', if_pos hu] at hx
      rw [hu] at hallows
      rw [show v = t.1.state.fpRegs r.rd from hallows, Function.update_eq_self]
      exact hI x ty hx hty
    · rw [hnote', if_neg hu] at hx
      by_cases hrd : x = r.rd
      · rw [hrd, Function.update_self] at hx ⊢
        cases hx
        rcases (isSingle_iff _).mp hty with hb | hl
        · rw [hb] at hallows
          exact hallows
        · rw [hl] at hallows
          exact Eq.trans hallows (hbefore raw r hload hdec hl)
      · rw [Function.update_of_ne hrd] at hx ⊢
        exact hI x ty hx hty
  · intro hafter raw' i' hload' hdec' hl
    rw [hload] at hload'
    cases hload'
    rw [hdec] at hdec'
    cases hdec'
    have hu : ¬r.type.fpEffect = .untouched := by rw [hl]; nofun
    have hboxed := hafter r.rd r.type (by rw [hnote', if_neg hu, Function.update_self])
      ((isSingle_iff _).mpr (.inr hl))
    rw [hreg, Function.update_self] at hboxed
    rw [hl] at hallows
    exact Eq.trans (Eq.symm hallows) hboxed

/-- **A run keeps its registers boxed exactly if no step of it breaks one.**  The run is the
main loop, from any machine, with no register written yet. -/
theorem mainLoop_boxed_iff {fpu : HostFpu} {os : Os} {n : Nat} {m : Machine}
    {t : Machine × Writers}
    (h : iter (traced (emuStep fpu os) noteWriter) n (m.enter, fun _ => none) = .ok t) :
    mainLoop fpu os n m = .ok t.1 ∧
      ((∀ k < n, ∀ u, iter (traced (emuStep fpu os) noteWriter) k (m.enter, fun _ => none) = .ok u →
          BoxedBefore u) ↔
        ∀ k ≤ n, ∀ u, iter (traced (emuStep fpu os) noteWriter) k (m.enter, fun _ => none) = .ok u →
          Boxed u) := by
  have hrun := iter_traced (emuStep fpu os) noteWriter n (m.enter, fun _ => none)
  rw [h] at hrun
  refine ⟨?_, iter_iff (fun hI hs => boxed_step hI hs) ?_ h⟩
  · rw [mainLoop_eq_iter, ← hrun]
    rfl
  · intro r ty hr
    cases hr

/-- `flw f1, 0(sp)` boxes its destination, and `fmv.w.x f1, x0` leaves it boxed. -/
theorem mainLoop_boxed_iff_flw :
    ∃ m t, bootCode grantingOs [0x87, 0x20, 0x01, 0x00, 0xd3, 0x00, 0x00, 0xf0] = .ok m ∧
      iter (traced (emuStep default grantingOs) noteWriter) 2 (m.enter, fun _ => none) = .ok t ∧
      mainLoop default grantingOs 2 m = .ok t.1 ∧ t.2 1 = some .fmv_w_x ∧
      ∀ k ≤ 2, ∀ u, iter (traced (emuStep default grantingOs) noteWriter) k
        (m.enter, fun _ => none) = .ok u → Boxed u := by
  have hok : (bootCode grantingOs [0x87, 0x20, 0x01, 0x00, 0xd3, 0x00, 0x00, 0xf0] >>= fun m =>
      (iter (traced (emuStep default grantingOs) noteWriter) 2 (m.enter, fun _ => none)).map
        fun t => (t.2 1, guarded (traced (emuStep default grantingOs) noteWriter) BoxedBefore 2
          (m.enter, fun _ => none))) = .ok (some .fmv_w_x, true) := by decide +kernel
  obtain ⟨m, hboot, h⟩ := bind_ok_inv hok
  obtain ⟨t, hrun, h⟩ := map_ok_inv h
  obtain ⟨hwriter, hbefore⟩ := Prod.mk.inj h
  obtain ⟨hloop, hiff⟩ := mainLoop_boxed_iff hrun
  exact ⟨m, t, hboot, hrun, hloop, hwriter, hiff.mp (guarded_iff.mp hbefore)⟩

/-- `fmv.w.x f1, x0` leaves zeros above its result in a register that nothing has written yet. -/
theorem fmvWX_unboxed :
    ∃ m t, bootCode grantingOs [0xd3, 0x00, 0x00, 0xf0] = .ok m ∧
      iter (traced (emuStep default grantingOs) noteWriter) 1 (m.enter, fun _ => none) = .ok t ∧
      ¬Boxed t := by
  have hok : (bootCode grantingOs [0xd3, 0x00, 0x00, 0xf0] >>= fun m =>
      (iter (traced (emuStep default grantingOs) noteWriter) 1 (m.enter, fun _ => none)).map
        fun t => (t.2 1, (t.1.state.fp 1).upper)) = .ok (some .fmv_w_x, 0) := by decide +kernel
  obtain ⟨m, hboot, h⟩ := bind_ok_inv hok
  obtain ⟨t, hrun, ht⟩ := map_ok_inv h
  obtain ⟨hwriter, hupper⟩ := Prod.mk.inj ht
  refine ⟨m, t, hboot, hrun, fun hboxed => ?_⟩
  have hones := hboxed 1 .fmv_w_x hwriter rfl
  rw [FpReg.IsBoxed, hupper] at hones
  exact absurd hones (by decide)

end Rvemu
