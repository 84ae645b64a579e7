import LineageA1000.Dispc.Live

/-!
# What a successful `DISPLAY_OVERLAY` means

A caller takes the result `0` for a frame on its way: the layers it named are lit, the overlay is
configured or started and the controller has been asked to take the registers over. The operation
returns `0` on every way out, so this is a condition on the state it starts from.
-/

namespace LineageA1000.Dispc

variable (K : FbConst) (d : Device)

/-- The enable bit of a layer's control word. -/
def Lit (ctrl : Word) : Prop := ctrl &&& bit 0 ≠ 0

instance (ctrl : Word) : Decidable (Lit ctrl) := inferInstanceAs (Decidable (ctrl &&& bit 0 ≠ 0))

/-- Every layer that the index names is lit. -/
def LayersLit (layerIndex : Word) (s : State) : Prop :=
  (layerIndex &&& K.layerImg ≠ 0 → Lit s.regs.img.ctrl) ∧
    (layerIndex &&& K.layerOsd ≠ 0 → Lit s.regs.osd.ctrl)

instance (layerIndex : Word) (s : State) : Decidable (LayersLit K layerIndex s) :=
  inferInstanceAs (Decidable (_ ∧ _))

/-- The register update (DPI) or the transfer is requested. -/
def updateRequest (s : State) : Word :=
  match d.panelIf with
  | .dpi => s.regs.dpiCtrl &&& bit 5
  | _ => s.regs.ctrl &&& bit 4

/-- The operation has counted a frame of its own and left the request for it. -/
def Armed (s s' : State) : Prop := s'.frameCount = s.frameCount + 1 ∧ updateRequest d s' ≠ 0

instance (s s' : State) : Decidable (Armed d s s') := inferInstanceAs (Decidable (_ ∧ _))

/-- The result tells the truth: `0` for a complete effect, anything else for none. -/
def Honest (layerIndex : Word) (s : State) (r : Int × State) : Prop :=
  (r.1 = 0 → LayersLit K layerIndex r.2 ∧ r.2.overlayState ≠ .off ∧ Armed d s r.2) ∧
    (r.1 ≠ 0 → r.2.regs.img.ctrl &&& bit 0 = s.regs.img.ctrl &&& bit 0 ∧
      r.2.regs.osd.ctrl &&& bit 0 = s.regs.osd.ctrl &&& bit 0 ∧
      r.2.overlayState = s.overlayState)

instance (layerIndex : Word) (s : State) (r : Int × State) :
    Decidable (Honest K d layerIndex s r) :=
  inferInstanceAs (Decidable (_ ∧ _))

/-- The device is enabled, the overlay open, some layer has an address, and each named layer has one
(the image layer may also be lit already). -/
def Displayable (layerIndex : Word) (s : State) : Prop :=
  s.enable = true ∧ s.overlayState ≠ .off ∧ ¬ (s.regs.img.yBase = 0 ∧ s.regs.osd.base = 0) ∧
    (layerIndex &&& K.layerImg ≠ 0 → s.regs.img.yBase ≠ 0 ∨ Lit s.regs.img.ctrl) ∧
    (layerIndex &&& K.layerOsd ≠ 0 → s.regs.osd.base ≠ 0)

/-! ### The enable bits -/

theorem lit_raise (ctrl : Word) : Lit (ctrl ||| bit 0) := by
  rw [Lit, or_and_mask]
  decide

theorem not_lit_clear (ctrl : Word) : ¬ Lit (ctrl &&& ~~~bit 0) := by
  have hnone : ~~~bit 0 &&& bit 0 = 0#32 := by decide
  rw [Lit, not_not, BitVec.and_assoc, hnone]
  exact BitVec.and_zero

theorem lit_or_bit_two (ctrl : Word) : Lit (ctrl ||| bit 2) ↔ Lit ctrl := by
  rw [Lit, Lit, or_and_of_disjoint _ _ _ (by decide)]

/-! ### The request for the update -/

/-- Nothing has been counted and no request made or withdrawn. -/
structure SameRequest (s s' : State) : Prop where
  frameCount : s'.frameCount = s.frameCount
  dpiCtrl : s'.regs.dpiCtrl = s.regs.dpiCtrl
  ctrl : s'.regs.ctrl = s.regs.ctrl

theorem SameRequest.trans {s s' s'' : State} (h : SameRequest s s') (h' : SameRequest s' s'') :
    SameRequest s s'' :=
  ⟨h'.frameCount.trans h.frameCount, h'.dpiCtrl.trans h.dpiCtrl, h'.ctrl.trans h.ctrl⟩

theorem SameRequest.updateRequest {s s' : State} (h : SameRequest s s') :
    updateRequest d s' = updateRequest d s := by
  unfold Dispc.updateRequest
  rw [h.dpiCtrl, h.ctrl]

theorem sameRequest_syncUnlessDpi (wake : Wake) (s : State) :
    SameRequest s (syncUnlessDpi d wake s) := by
  have hsync (s : State) : SameRequest s (dispcSync d wake s).2 := by
    unfold dispcSync waitVsyncDone
    split
    · exact ⟨rfl, rfl, rfl⟩
    · cases wake with
      | done => cases s.vsyncDone <;> exact ⟨rfl, rfl, rfl⟩
      | timeout => cases s.vsyncDone <;> exact ⟨rfl, rfl, rfl⟩
      | signal => cases s.vsyncDone <;> exact ⟨rfl, rfl, rfl⟩
  have hwait := hsync { s with vsyncWaiter := s.vsyncWaiter + 1 }
  unfold syncUnlessDpi
  cases d.panelIf with
  | dpi => exact ⟨rfl, rfl, rfl⟩
  | dbi => exact ⟨hwait.frameCount, hwait.dpiCtrl, hwait.ctrl⟩
  | edpi => exact ⟨hwait.frameCount, hwait.dpiCtrl, hwait.ctrl⟩

theorem armed_runFrame {s : State} (henable : s.enable = true) : Armed d s (runFrame d s) := by
  have hset (ctrl : Word) (n : Nat) (hn : bit n ≠ 0) : (ctrl ||| bit n) &&& bit n ≠ 0 := by
    rw [or_and_mask]
    exact hn
  have hkept : ~~~bit 4 &&& bit 5 = bit 5 := by decide
  have hon : ¬ ({ s with frameCount := s.frameCount + 1 } : State).enable = false := by
    show ¬ s.enable = false
    rw [henable]
    decide
  unfold Armed runFrame dispcRun dispcRunArm dispcRunClear updateRequest
  rw [if_neg hon]
  cases d.panelIf with
  | dpi =>
      by_cases hfirst : s.isFirstFrame
      · simp only [hfirst, if_true, true_and]
        rw [BitVec.and_assoc, hkept]
        exact hset _ 5 (by decide)
      · simp only [hfirst, if_false, true_and, Bool.false_eq_true]
        exact hset _ 5 (by decide)
  | dbi => exact ⟨rfl, hset _ 4 (by decide)⟩
  | edpi => exact ⟨rfl, hset _ 4 (by decide)⟩

theorem armed_displayRun (display : OverlayDisplay) (wakeAfter : Wake) {s : State}
    (henable : s.enable = true) : Armed d s (displayRun d display wakeAfter s) := by
  have hrun := armed_runFrame d henable
  unfold displayRun
  split
  · have hsync := sameRequest_syncUnlessDpi d wakeAfter (runFrame d s)
    refine ⟨hsync.frameCount.trans hrun.1, ?_⟩
    rw [hsync.updateRequest]
    exact hrun.2
  · exact hrun

/-! ### Starting the overlay -/

theorem sameRequest_overlayStart (layerIndex : Word) (s : State) :
    SameRequest s (overlayStart K layerIndex s).2 := by
  unfold overlayStart
  split
  · exact ⟨rfl, rfl, rfl⟩
  · split <;> exact ⟨rfl, rfl, rfl⟩

variable {K} in
/-- A started overlay has lit, of the named layers, those with an address; the image layer stays lit
where it was. -/
theorem overlayStart_layersLit (layerIndex : Word) {s : State} (hon : s.overlayState = .on)
    (hbase : ¬ (s.regs.img.yBase = 0 ∧ s.regs.osd.base = 0)) (hdark : ¬ Lit s.regs.osd.ctrl) :
    (overlayStart K layerIndex s).1 = 0 ∧ (overlayStart K layerIndex s).2.overlayState = .started ∧
      (overlayStart K layerIndex s).2.enable = s.enable ∧
      (LayersLit K layerIndex (overlayStart K layerIndex s).2 ↔
        (layerIndex &&& K.layerImg ≠ 0 → s.regs.img.yBase ≠ 0 ∨ Lit s.regs.img.ctrl) ∧
          (layerIndex &&& K.layerOsd ≠ 0 → s.regs.osd.base ≠ 0)) := by
  unfold overlayStart LayersLit
  rw [if_neg (not_not.2 hon), if_neg hbase]
  refine ⟨rfl, rfl, rfl, ?_⟩
  dsimp only
  apply and_congr
  · apply imp_congr_right
    intro himg
    by_cases haddr : s.regs.img.yBase = 0
    · rw [if_neg fun h => h.2 haddr]
      exact (or_iff_right (not_not.2 haddr)).symm
    · rw [if_pos ⟨himg, haddr⟩]
      exact iff_of_true (lit_raise _) (Or.inl haddr)
  · apply imp_congr_right
    intro hosd
    by_cases haddr : s.regs.osd.base = 0
    · rw [if_neg fun h => h.2 haddr, lit_or_bit_two]
      exact iff_of_false hdark (not_not.2 haddr)
    · rw [if_pos ⟨hosd, haddr⟩]
      exact iff_of_true (lit_raise _) haddr

variable {K d}

theorem not_armed_of_sameRequest {s s' : State} (h : SameRequest s s') : ¬ Armed d s s' := by
  intro harmed
  have hcount := h.frameCount
  rw [harmed.1] at hcount
  omega

theorem Armed.of_sameRequest {s s' s'' : State} (h : SameRequest s s') (harmed : Armed d s' s'') :
    Armed d s s'' :=
  ⟨by rw [harmed.1, h.frameCount], harmed.2⟩

theorem layersLit_congr {layerIndex : Word} {s s' : State} (h : Frame s s') :
    LayersLit K layerIndex s' ↔ LayersLit K layerIndex s := by
  unfold LayersLit
  rw [h.img, h.osd]

theorem honest_of_zero {layerIndex : Word} {s s' : State} :
    Honest K d layerIndex s (0, s') ↔
      LayersLit K layerIndex s' ∧ s'.overlayState ≠ .off ∧ Armed d s s' :=
  ⟨fun h => h.1 rfl, fun h => ⟨fun _ => h, fun hne => absurd rfl hne⟩⟩

variable (K d)

/-- The state `display_overlay` starts the overlay from, compared with the one it found. -/
theorem displayPrepare_spec (wake : Wake) (s : State) :
    let s' := displayPrepare d (syncUnlessDpi d wake s)
    SameRequest s s' ∧ ¬ Lit s'.regs.osd.ctrl ∧ s'.regs.img = s.regs.img ∧
      s'.regs.osd.base = s.regs.osd.base ∧ s'.enable = s.enable ∧
      (s'.overlayState = .on ↔ s.overlayState ≠ .off) ∧
      (s'.overlayState = .off ↔ s.overlayState = .off) := by
  have hsync := frame_syncUnlessDpi d wake s
  have hrequest := sameRequest_syncUnlessDpi d wake s
  intro s'
  have hbase : s'.regs.osd.base = s.regs.osd.base := by
    show (syncUnlessDpi d wake s).regs.osd.base = _
    rw [hsync.osd]
  have hstate : s'.overlayState = if s.overlayState = .started then .on else s.overlayState := by
    show (if (syncUnlessDpi d wake s).overlayState = .started then _ else _) = _
    rw [hsync.overlayState]
  refine ⟨⟨hrequest.frameCount, hrequest.dpiCtrl, hrequest.ctrl⟩, not_lit_clear _, hsync.img, hbase,
    hsync.enable, ?_, ?_⟩ <;> rw [hstate] <;> cases s.overlayState <;> decide

/-- `DISPLAY_OVERLAY` tells the truth if and only if it starts from a state in which it can do what
it is asked for. -/
theorem displayOverlay_honest_iff (display : OverlayDisplay) (wake wakeAfter : Wake) (s : State) :
    Honest K d display.layerIndex s (displayOverlay K d display wake wakeAfter s) ↔
      Displayable K display.layerIndex s := by
  obtain ⟨hrequest, hdark, himg, hosd, henable, hopen, hoff⟩ := displayPrepare_spec d wake s
  unfold displayOverlay Displayable
  generalize displayPrepare d (syncUnlessDpi d wake s) = s₁ at *
  split
  · rename_i hdisabled
    rw [honest_of_zero]
    refine iff_of_false (fun h => ?_) fun h => ?_
    · exact not_armed_of_sameRequest ⟨rfl, rfl, rfl⟩ h.2.2
    · rw [h.1] at hdisabled
      cases hdisabled
  rename_i hnotDisabled
  have hon : s.enable = true := Bool.eq_true_of_not_eq_false hnotDisabled
  have hstart := sameRequest_overlayStart K display.layerIndex s₁
  dsimp only
  split
  · rename_i hopened
    by_cases hbase : s₁.regs.img.yBase = 0 ∧ s₁.regs.osd.base = 0
    · have hrefused : (overlayStart K display.layerIndex s₁).1 ≠ 0 := by
        unfold overlayStart
        rw [if_neg (not_not.2 hopened), if_pos hbase]
        show (-1 : Int) ≠ 0
        decide
      rw [if_pos hrefused, honest_of_zero]
      refine iff_of_false (fun h => ?_) fun h => ?_
      · exact not_armed_of_sameRequest (hrequest.trans hstart) h.2.2
      · rw [himg, hosd] at hbase
        exact h.2.2.1 hbase
    · obtain ⟨hret, hstarted, hkeeps, hlit⟩ :=
        overlayStart_layersLit (K := K) display.layerIndex hopened hbase hdark
      have hrun := frame_displayRun d display wakeAfter (overlayStart K display.layerIndex s₁).2
      have harmed := armed_displayRun d display wakeAfter (hkeeps.trans (henable.trans hon))
      have hstate : (displayRun d display wakeAfter
          (overlayStart K display.layerIndex s₁).2).overlayState ≠ .off := by
        rw [hrun.overlayState, hstarted]
        decide
      rw [if_neg (not_not.2 hret), honest_of_zero, layersLit_congr hrun, hlit, himg, hosd]
      rw [himg, hosd] at hbase
      constructor
      · intro h
        exact ⟨hon, hopen.1 hopened, hbase, h.1⟩
      · intro h
        exact ⟨h.2.2.2, hstate, harmed.of_sameRequest (hrequest.trans hstart)⟩
  · rename_i hclosed
    have hrun := frame_displayRun d display wakeAfter s₁
    rw [honest_of_zero, hrun.overlayState]
    refine iff_of_false (fun h => ?_) fun h => ?_
    · exact hclosed (hopen.2 (mt hoff.2 h.2.1))
    · exact hclosed (hopen.2 h.2.1)

/-- `DISPLAY_OVERLAY` on a suspended device: it returns `0` and does nothing. -/
theorem displayOverlay_suspended :
    (displayOverlay headerConst dpiPanel ⟨2, 0⟩ .done .done
        (suspend dpiPanel .done runningPanel).2).1 = 0 ∧
      ¬ Honest headerConst dpiPanel 2 (suspend dpiPanel .done runningPanel).2
        (displayOverlay headerConst dpiPanel ⟨2, 0⟩ .done .done
          (suspend dpiPanel .done runningPanel).2) := by
  decide

end LineageA1000.Dispc
