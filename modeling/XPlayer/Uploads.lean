import XPlayer.XTexture
import XPlayer.Lib.Raster

/-!
# What the uploads of `CXTexture` read

In runs of `SetRender`, `Close` and `Render` with frames of any format, `InPlane` says of a call that it reads no byte
outside of the plane it is given. `Draw` knows only the size of the frame and the type of the texture, so that
`Readable` is a condition on the frame and on that type.
-/

namespace XPlayer

/-- The region starts at a plane, and its rows end in it. -/
def AVPlane.Covers (isa : Bool) (width height : ℕ) (buf : Option AVPlane) : Prop :=
  ∃ p, buf = some p ∧ ∀ y < height, ∀ x < width * bytesPerTexel isa,
    ((y * unpackPitch (width * bytesPerTexel isa) + x : ℕ) : ℤ) < p.linesize * p.height

/-- Every byte that the call reads is in the plane. -/
def GLCall.InPlane : GLCall AVPlane → Prop
  | .texSubImage2D _ isa width height buf => AVPlane.Covers isa width height buf
  | _ => True

/-- Every upload to the texture is inside of its plane. -/
def GLVideoView.InPlanes (v : GLVideoView) : Prop := ∀ t ∈ v.txt, ∀ c ∈ t.sh.log, c.InPlane

/-- A frame that is rendered to a window can be read by the texture that is there, or is created for it. -/
def GLVideoViewOp.Readable : GLVideoViewOp → GLVideoView → Prop
  | .render f _, v => v.view = true → f.Readable (v.type f)
  | _, _ => True

theorem AVPlane.covers_iff {isa : Bool} {width height : ℕ} {buf : Option AVPlane} :
    AVPlane.Covers isa width height buf ↔ AVPlane.Holds isa width height buf := by
  refine exists_congr fun p => and_congr_right fun _ => ?_
  have hb : 0 < bytesPerTexel isa := by
    cases isa <;> decide
  rw [rows_lt_iff, Nat.mul_eq_zero, or_iff_left hb.ne']

/-! ### The calls of `XShader` -/

namespace XShader
variable {s : XShader AVPlane}

theorem getTexture_inPlane (index : Fin 100) (width height : ℕ) (buf : Option AVPlane) (isa : Bool) :
    (∀ c ∈ (s.getTexture index width height buf isa).log, c.InPlane) ↔
      AVPlane.Covers isa width height buf ∧ ∀ c ∈ s.log, c.InPlane := by
  rcases hi : s.texts index with _ | x
  · rw [getTexture_none _ _ _ _ hi]
    simp only [List.forall_mem_cons, GLCall.InPlane, true_and]
  · rw [getTexture_some _ _ _ _ hi]
    simp only [List.forall_mem_cons, GLCall.InPlane]

theorem draw_inPlane : (∀ c ∈ s.draw.log, c.InPlane) ↔ ∀ c ∈ s.log, c.InPlane := by
  unfold draw
  split
  · exact Iff.rfl
  · simp only [List.forall_mem_cons, GLCall.InPlane, true_and]

theorem close_inPlane (h : ∀ c ∈ s.log, c.InPlane) : ∀ c ∈ s.close.log, c.InPlane := by
  intro c hc
  rcases List.mem_append.mp hc with hc | hc
  · obtain ⟨x, -, rfl⟩ := List.mem_map.mp hc
    trivial
  · exact h c hc

theorem init_inPlane (h : ∀ c ∈ s.log, c.InPlane) (type : ℤ) (o : XShaderOutcomes) :
    ∀ c ∈ (s.init type o).2.log, c.InPlane := by
  refine init_rule (P := fun s => ∀ c ∈ s.log, c.InPlane) ?_ ?_ ?_ (close_inPlane h) type o
  · intro s k hs
    exact List.forall_mem_cons.mpr ⟨trivial, hs⟩
  · intro s v f p hs
    exact hs
  · intro s p hs
    exact List.forall_mem_cons.mpr ⟨trivial, hs⟩

end XShader

/-! ### The steps of the view -/

theorem CXTexture.draw_inPlane (f : AVPicture) (t : CXTexture) :
    (∀ c ∈ (t.draw f.data f.width f.height).sh.log, c.InPlane) ↔ f.Readable t.type ∧ ∀ c ∈ t.sh.log, c.InPlane := by
  unfold draw AVPicture.Readable
  simp only [XShader.draw_inPlane, ← AVPlane.covers_iff]
  split_ifs
  · simp only [XShader.getTexture_inPlane]
    tauto
  · simp only [XShader.getTexture_inPlane]
    tauto

theorem CXTexture.init_inPlane (win : Bool) (type : ℤ) (o : InitOutcomes) :
    ∀ c ∈ (({} : CXTexture).init win type o).2.sh.log, c.InPlane := by
  have hc : ∀ c ∈ ({} : XShader AVPlane).close.log, c.InPlane := XShader.close_inPlane fun c hc => by cases hc
  unfold init
  simp only
  split_ifs
  · exact hc
  · exact hc
  · exact XShader.init_inPlane hc type o.shader

theorem GLVideoView.texture_inPlane {v : GLVideoView} (h : v.InPlanes) (p : XPicture) (o : InitOutcomes) :
    ∀ c ∈ (v.texture p o).sh.log, c.InPlane := by
  rcases v with ⟨view, _ | t⟩
  · exact CXTexture.init_inPlane view p.format o
  · exact h t rfl

theorem GLVideoView.step_inPlanes {v : GLVideoView} (h : v.InPlanes) (op : GLVideoViewOp) :
    (v.step op).InPlanes ↔ op.Readable v := by
  cases op with
  | setRender win => exact iff_of_true h trivial
  | close => exact iff_of_true (fun t ht => by cases ht) trivial
  | render f o =>
    simp only [step, render, GLVideoViewOp.Readable]
    split
    · rename_i hv
      exact iff_of_true h fun ht => absurd ht (by rw [hv]; decide)
    · rename_i hv
      have ht : v.view = true := Bool.eq_true_of_not_eq_false hv
      have hd := CXTexture.draw_inPlane f (v.texture f.recvFrame o)
      rw [texture_type] at hd
      simp only [InPlanes, Option.mem_some_iff, forall_eq', AVPicture.recvFrame, ht, true_implies]
      exact hd.trans (and_iff_left (texture_inPlane h _ o))

/-- In every run all uploads are inside of their planes if and only if every frame that is rendered can be read by the
texture of the moment. -/
theorem uploads_in_planes (ops : List GLVideoViewOp) :
    viewSys.Along (fun op v => ∀ w, viewSys.step op v = some w → w.InPlanes) ops {} ↔
      viewSys.Along GLVideoViewOp.Readable ops {} := by
  refine Sys.along_good_iff (I := fun _ => True) ?_ ?_ ops trivial ?_
  · intro op v _ hn
    cases hn
  · intro op v w _ hg hw
    cases hw
    exact ⟨trivial, GLVideoView.step_inPlanes hg op⟩
  · intro t ht
    cases ht

/-- An RGB24 frame of 2 by 2 pixels: one plane, with rows of 32 bytes. -/
def rgb24 : AVPicture where
  format := 2
  width := 2
  height := 2
  data i := if i.val = 0 then some ⟨32, 2, fun _ => 0⟩ else none

theorem uploads_null :
    ¬ viewSys.Along (fun op v => ∀ w, viewSys.step op v = some w → w.InPlanes)
      [.setRender true, .render rgb24 {}] {} := by
  rintro ⟨-, h⟩
  obtain ⟨h, -⟩ := h _ rfl
  obtain ⟨-, hr⟩ := (GLVideoView.step_inPlanes (fun t ht => by cases ht) (.render rgb24 {})).mp (h _ rfl) rfl
  obtain ⟨p, hp, -⟩ := hr
  cases hp

end XPlayer
