import XPlayer.XShader
import XPlayer.VideoView

/-!
# `CXTexture`

The picture of a decoded frame on its way to the textures: `RecvFrame`, `GLVideoView::Render` and `CXTexture::Draw`.
A pointer to pixels is modelled by the plane it points to. `Readable` tells which frames have all the bytes that an
upload reads.
-/

namespace XPlayer

/-- A plane of a decoded frame, with the bytes at all offsets from its pointer. -/
structure AVPlane where
  linesize : ℤ
  height : ℕ
  bytes : ℤ → UInt8

/-- The picture of a decoded video frame. -/
structure AVPicture where
  format : ℤ
  width : ℕ
  height : ℕ
  data : Fin 8 → Option AVPlane

/-- The fields of an `XData` that `Render` reads. -/
structure XPicture where
  datas : Fin 8 → Option AVPlane
  width : ℕ
  height : ℕ
  format : ℤ

/-- `RecvFrame` copies the pointers, the size and the format, but no `linesize`. -/
def AVPicture.recvFrame (f : AVPicture) : XPicture := ⟨f.data, f.width, f.height, f.format⟩

def XTEXTURE_YUV420P : ℤ := 0

/-- The calls of `XEGL` (`Close` and `Draw`) do not touch the textures. -/
structure CXTexture where
  sh : XShader AVPlane := {}
  type : ℤ := XTEXTURE_YUV420P

structure InitOutcomes where
  /-- The result of `XEGL::Init`. -/
  egl : Bool := true
  shader : XShaderOutcomes := {}

namespace CXTexture

/-- The result of `XShader::Init` is not tested. -/
def init (win : Bool) (type : ℤ) (o : InitOutcomes) (t : CXTexture) : Bool × CXTexture :=
  let t := { t with sh := t.sh.close, type }
  if win = false then (false, t)
  else if o.egl = false then (false, t)
  else (true, { t with sh := (t.sh.init type o.shader).2 })

def draw (data : Fin 8 → Option AVPlane) (width height : ℕ) (t : CXTexture) : CXTexture :=
  let sh := t.sh.getTexture 0 width height (data 0) false
  let sh :=
    if t.type = XTEXTURE_YUV420P then
      (sh.getTexture 1 (width / 2) (height / 2) (data 1) false).getTexture 2 (width / 2) (height / 2) (data 2) false
    else sh.getTexture 1 (width / 2) (height / 2) (data 1) true
  { t with sh := sh.draw }

@[simp] theorem draw_type (data : Fin 8 → Option AVPlane) (width height : ℕ) (t : CXTexture) :
    (t.draw data width height).type = t.type := rfl

@[simp] theorem init_type (win : Bool) (type : ℤ) (o : InitOutcomes) (t : CXTexture) :
    (t.init win type o).2.type = type := by
  unfold init
  simp only
  split_ifs <;> rfl

end CXTexture

structure GLVideoView where
  view : Bool := false
  txt : Option CXTexture := none

inductive GLVideoViewOp
  | setRender (win : Bool)
  | close
  | render (f : AVPicture) (o : InitOutcomes)

namespace GLVideoView

def setRender (win : Bool) (v : GLVideoView) : GLVideoView := { v with view := win }

/-- `Drop` deletes the names of the texture and the texture. -/
def close (v : GLVideoView) : GLVideoView := { v with txt := none }

/-- The texture that `Render` draws with. The result of `Init` is not tested. -/
def texture (p : XPicture) (o : InitOutcomes) (v : GLVideoView) : CXTexture :=
  match v.txt with
  | some t => t
  | none => (({} : CXTexture).init v.view p.format o).2

def render (p : XPicture) (o : InitOutcomes) (v : GLVideoView) : GLVideoView :=
  if v.view = false then v else { v with txt := some ((v.texture p o).draw p.datas p.width p.height) }

def step (v : GLVideoView) : GLVideoViewOp → GLVideoView
  | .setRender win => v.setRender win
  | .close => v.close
  | .render f o => v.render f.recvFrame o

/-- The type of the texture that `Render` draws with: the format of the frame it was created for. -/
def type (f : AVPicture) (v : GLVideoView) : ℤ := (v.txt.map CXTexture.type).getD f.format

theorem texture_type (f : AVPicture) (o : InitOutcomes) (v : GLVideoView) :
    (v.texture f.recvFrame o).type = v.type f := by
  rcases v with ⟨view, _ | t⟩
  · exact CXTexture.init_type ..
  · rfl

end GLVideoView

/-- The view on one thread. -/
def viewSys : Sys GLVideoView GLVideoViewOp where
  init v := v = {}
  step op v := some (v.step op)

/-! ### The view that threads share -/

/-- The view of `VideoView` between the calls of one thread. -/
structure OneThread (v : GLVideoView) (s : VideoView) : Prop where
  view : s.view = v.view
  txt : s.txt.isSome = v.txt.isSome
  mux : s.mux = none
  render : s.render = .idle
  close : s.close 0 = .idle

section
variable {v : GLVideoView} {s : VideoView}

theorem OneThread.close_run (h : OneThread v s) : ∃ t, videoView.Run Sys.any s t ∧ OneThread v.close t := by
  obtain ⟨view, txt, mux, render, close, created, log⟩ := s
  obtain ⟨rfl, -, rfl, rfl, hc⟩ := h
  simp only at hc
  rcases txt with _ | n
  · have he : ∃ c, videoView.exec [.close 0, .stepClose 0, .stepClose 0, .stepClose 0]
        ⟨v.view, none, none, .idle, close, created, log⟩ =
          some ⟨v.view, none, none, .idle, Function.update c 0 .idle, created, log⟩ := by
      simp only [Sys.exec, videoView, VideoView.step, hc, if_true, Option.bind_some]
      exact ⟨_, rfl⟩
    obtain ⟨c, he⟩ := he
    exact ⟨_, .of_exec_any he, ⟨rfl, rfl, rfl, rfl, Function.update_self 0 .idle c⟩⟩
  · have he : ∃ c, videoView.exec (.close 0 :: List.replicate 6 (.stepClose 0))
        ⟨v.view, some n, none, .idle, close, created, log⟩ =
          some ⟨v.view, none, none, .idle, Function.update c 0 .idle, created, .drop n :: log⟩ := by
      simp only [Sys.exec, videoView, VideoView.step, hc, if_true, Option.bind_some]
      exact ⟨_, rfl⟩
    obtain ⟨c, he⟩ := he
    exact ⟨_, .of_exec_any he, ⟨rfl, rfl, rfl, rfl, Function.update_self 0 .idle c⟩⟩

theorem OneThread.render_run (h : OneThread v s) (p : XPicture) (o : InitOutcomes) :
    ∃ t, videoView.Run Sys.any s t ∧ OneThread (v.render p o) t := by
  obtain ⟨view, txt, mux, render, close, created, log⟩ := s
  obtain ⟨rfl, ht, rfl, rfl, hc⟩ := h
  obtain ⟨view, txt'⟩ := v
  rcases view with _ | _
  · have he : videoView.exec [.render, .stepRender] ⟨false, txt, none, .idle, close, created, log⟩ =
        some ⟨false, txt, none, .idle, close, created, log⟩ := rfl
    exact ⟨_, .of_exec_any he, ⟨rfl, ht, rfl, rfl, hc⟩⟩
  rcases txt with _ | n
  · have he : videoView.exec (.render :: List.replicate 9 .stepRender) ⟨true, none, none, .idle, close, created, log⟩ =
        some ⟨true, some created, none, .idle, close, created + 1,
          .draw created :: .init created :: .create created :: log⟩ := rfl
    exact ⟨_, .of_exec_any he, ⟨rfl, rfl, rfl, rfl, hc⟩⟩
  · have he : videoView.exec (.render :: List.replicate 4 .stepRender) ⟨true, some n, none, .idle, close, created, log⟩ =
        some ⟨true, some n, none, .idle, close, created, .draw n :: log⟩ := rfl
    exact ⟨_, .of_exec_any he, ⟨rfl, rfl, rfl, rfl, hc⟩⟩

end

/-- The calls of one thread are calls of the view that any threads share. -/
theorem view_sim : viewSys.Sim videoView Sys.any OneThread where
  init := by
    rintro _ rfl
    exact ⟨{}, rfl, ⟨rfl, rfl, rfl, rfl, rfl⟩⟩
  step := by
    rintro op v _ s h - ⟨⟩
    cases op with
    | setRender win => exact ⟨_, .single (a := .setRender win) trivial rfl, ⟨rfl, h.txt, h.mux, h.render, h.close⟩⟩
    | close => exact h.close_run
    | render f o => exact h.render_run f.recvFrame o

theorem one_thread_reach {v : GLVideoView} (h : viewSys.Reach Sys.any v) :
    ∃ s, videoView.Reach Sys.any s ∧ OneThread v s := view_sim.reach h

/-! ### Rows of texels -/

/-- The pitch at which OpenGL ES reads rows of `n` bytes: the alignment is 4. -/
def unpackPitch (n : ℕ) : ℕ := (n + 3) / 4 * 4

/-- `GL_LUMINANCE_ALPHA` has two bytes, `GL_LUMINANCE` one. -/
def bytesPerTexel (isa : Bool) : ℕ := if isa then 2 else 1

/-- A plane that is long enough for the region: its last row ends in the plane. -/
def AVPlane.Holds (isa : Bool) (width height : ℕ) (buf : Option AVPlane) : Prop :=
  ∃ p, buf = some p ∧ (width = 0 ∨ height = 0 ∨
    (((height - 1) * unpackPitch (width * bytesPerTexel isa) + width * bytesPerTexel isa : ℕ) : ℤ) ≤
      p.linesize * p.height)

/-- The planes that a texture of the type takes from the frame are there, and each holds its region. -/
def AVPicture.Readable (type : ℤ) (f : AVPicture) : Prop :=
  AVPlane.Holds false f.width f.height (f.data 0) ∧
    if type = XTEXTURE_YUV420P then
      AVPlane.Holds false (f.width / 2) (f.height / 2) (f.data 1) ∧
        AVPlane.Holds false (f.width / 2) (f.height / 2) (f.data 2)
    else AVPlane.Holds true (f.width / 2) (f.height / 2) (f.data 1)

end XPlayer
