import XPlayer.Textures

/-!
# The textures hold the frames

A sequence of frames of the supported formats is rendered to a window, and `Shows` compares the textures after a `Draw`
with the planes of its frame. `Fits` is the condition on the layouts of the first frame and of the frame that is drawn
under which they agree whatever bytes the frames have: the storage is that of the first frame, and `GetTexture` knows no
`linesize`.
-/

namespace XPlayer

/-- NV12 and NV21 with the numbers of `XTextureType`, and with those of `AVPixelFormat` in the library's version. -/
def supportedFormats : List ℤ := [XTEXTURE_YUV420P, 25, 26, 23, 24]

theorem planeCount_le (format : ℤ) : planeCount format ≤ 3 := by
  unfold planeCount
  split <;> decide

/-- The layout of a frame in a supported format: its rows are at least as long as those of its planes. -/
structure Layout where
  format : ℤ
  supported : format ∈ supportedFormats
  width : ℕ
  height : ℕ
  linesize : Fin 3 → ℤ
  wide : ∀ i : Fin 3, i < planeCount format →
    (((planeSize i width height).1 * bytesPerTexel (paired format i) : ℕ) : ℤ) ≤ linesize i

namespace Layout

def Has (g : Layout) (i : Fin 3) : Prop := i < planeCount g.format

instance (g : Layout) (i : Fin 3) : Decidable (g.Has i) := inferInstanceAs (Decidable (_ < _))

def isa (g : Layout) (i : Fin 3) : Bool := paired g.format i

def drawSize (g : Layout) (i : Fin 3) : ℕ × ℕ := XPlayer.drawSize i g.width g.height

def planeSize (g : Layout) (i : Fin 3) : ℕ × ℕ := XPlayer.planeSize i g.width g.height

/-- The size of the texture of the index if this is the layout of the first frame. -/
def textureSize (g : Layout) (i : Fin 3) : ℕ × ℕ := if g.Has i then g.drawSize i else (0, 0)

end Layout

structure VideoFrame where
  layout : Layout
  bytes : Fin 3 → ℤ → UInt8

namespace VideoFrame

def plane (f : VideoFrame) (i : Fin 3) : AVPlane := ⟨f.layout.linesize i, (f.layout.planeSize i).2, f.bytes i⟩

def picture (f : VideoFrame) : AVPicture where
  format := f.layout.format
  width := f.layout.width
  height := f.layout.height
  data j := if h : j < planeCount f.layout.format then some (f.plane ⟨j, h.trans_le (planeCount_le _)⟩) else none

/-- The sample at row `y` and column `x` of a plane. -/
def sample (f : VideoFrame) (i : Fin 3) (x y : ℕ) : List UInt8 :=
  (f.plane i).pixel (f.layout.isa i) (y * f.layout.linesize i + x * bytesPerTexel (f.layout.isa i))

end VideoFrame

/-- The frames are rendered to a window, one after the other. -/
def rendered (o : XShaderOutcomes) (fs : List VideoFrame) : GLVideoView :=
  fs.foldl (fun v f => v.render f.picture.recvFrame { shader := o }) { view := true }

/-- Which texels of a plane's texture are meant. -/
inductive Texels
  /-- Those that `Draw` uploads. -/
  | uploaded
  /-- All of the texture. -/
  | texture
  /-- One for each sample of the plane. -/
  | plane

def Texels.size (d : Texels) (texture uploaded plane : ℕ × ℕ) : ℕ × ℕ :=
  match d with
  | .uploaded => uploaded
  | .texture => texture
  | .plane => plane

/-- The texels of the texture of each plane are the samples of the plane. -/
def Shows (d : Texels) (t : CXTexture) (f : VideoFrame) : Prop :=
  ∀ i, f.layout.Has i →
    let size := d.size ((t.content i).elim (0, 0) GLTexture.size) (f.layout.drawSize i) (f.layout.planeSize i)
    ∀ x < size.1, ∀ y < size.2, ((t.content i).bind fun c => c.raster.texel x y) = some (f.sample i x y)

/-- For each plane that has texels to compare: its texture has as many bytes a texel and is large enough for the
upload, the texels are all uploaded, and the rows, if there are two, are as long as OpenGL ES reads them. -/
def Layout.Fits (d : Texels) (first g : Layout) : Prop :=
  ∀ i, g.Has i →
    let size := d.size (first.textureSize i) (g.drawSize i) (g.planeSize i)
    0 < size.1 → 0 < size.2 →
      first.isa i = g.isa i ∧ g.drawSize i ≤ first.textureSize i ∧ size ≤ g.drawSize i ∧
        (1 < size.2 → g.linesize i = unpackPitch ((g.drawSize i).1 * bytesPerTexel (g.isa i)))

/-! ### One frame -/

theorem VideoFrame.picture_data (f : VideoFrame) (i : Fin 3) :
    f.picture.data (i.castLE (by decide)) = if f.layout.Has i then some (f.plane i) else none := by
  by_cases h : f.layout.Has i
  · rw [if_pos h]
    exact dif_pos h
  · rw [if_neg h]
    exact dif_neg h

namespace CXTexture

/-- The texture was created for a frame of the layout, and has storage of its size as far as it has any. -/
structure Follows (first : Layout) (t : CXTexture) : Prop where
  type : t.type = first.format
  tidy : t.sh.Tidy
  other : ∀ i, ¬ first.Has i → t.content i = none
  isa : ∀ i, ∀ c ∈ t.content i, c.isa = first.isa i
  size : ∀ i, ∀ c ∈ t.content i, c.size = first.textureSize i

/-- A frame of the size of the first one, if there is no storage yet. -/
def Starts (first : Layout) (t : CXTexture) (g : Layout) : Prop := ∀ i, first.Has i → t.content i = none → g = first

/-- The texture of a plane before an upload. -/
def base (first : Layout) (t : CXTexture) (i : Fin 3) : GLTexture :=
  (t.content i).getD (.new (first.isa i) (first.textureSize i))

def drawFrame (t : CXTexture) (f : VideoFrame) : CXTexture := t.draw f.picture.data f.picture.width f.picture.height

section
variable {first : Layout} {t : CXTexture} {f : VideoFrame} {i : Fin 3}

theorem Follows.base_isa (h : Follows first t) : (base first t i).isa = first.isa i := by
  unfold base
  rcases hc : t.content i with _ | c
  · rfl
  · exact h.isa i c hc

theorem Follows.base_size (h : Follows first t) : (base first t i).size = first.textureSize i := by
  unfold base
  rcases hc : t.content i with _ | c
  · rfl
  · exact h.size i c hc

theorem Follows.drawFrame_content (h : Follows first t) (hs : Starts first t f.layout) (hi : first.Has i) :
    (t.drawFrame f).content i = some ((base first t i).upload (first.isa i) (f.layout.drawSize i)
      (if f.layout.Has i then some (f.plane i) else none)) := by
  have hd := draw_content f.picture.data f.picture.width f.picture.height h.tidy i
  rw [h.type] at hd
  have hd := hd.trans (if_pos hi)
  rw [f.picture_data] at hd
  have hbase : (t.content i).getD (.new (first.isa i) (f.layout.drawSize i)) = base first t i := by
    unfold base
    rcases hc : t.content i with _ | c
    · rw [hs i hi hc, Layout.textureSize, if_pos hi]
    · rfl
  rw [← hbase]
  exact hd

theorem Follows.drawFrame_none (h : Follows first t) (hi : ¬ first.Has i) : (t.drawFrame f).content i = none := by
  have hd := draw_content f.picture.data f.picture.width f.picture.height h.tidy i
  rw [h.type] at hd
  exact (hd.trans (if_neg hi)).trans (h.other i hi)

theorem Follows.drawFrame (h : Follows first t) (hs : Starts first t f.layout) : Follows first (t.drawFrame f) where
  type := h.type
  tidy := draw_tidy _ _ _ h.tidy
  other := fun i hi => h.drawFrame_none hi
  isa := by
    intro i c hc
    by_cases hi : first.Has i
    · rw [h.drawFrame_content hs hi] at hc
      cases hc
      rw [GLTexture.upload_isa, h.base_isa]
    · rw [h.drawFrame_none hi] at hc
      cases hc
  size := by
    intro i c hc
    by_cases hi : first.Has i
    · rw [h.drawFrame_content hs hi] at hc
      cases hc
      rw [GLTexture.upload_size, h.base_size]
    · rw [h.drawFrame_none hi] at hc
      cases hc

theorem Follows.elim_size (h : Follows first t) (hs : Starts first t f.layout) :
    ((t.drawFrame f).content i).elim (0, 0) GLTexture.size = first.textureSize i := by
  by_cases hi : first.Has i
  · rw [h.drawFrame_content hs hi]
    exact GLTexture.upload_size.trans h.base_size
  · rw [h.drawFrame_none hi, Layout.textureSize, if_neg hi]
    rfl

theorem Follows.shows {d : Texels} (h : Follows first t) (hs : Starts first t f.layout)
    (hf : first.Fits d f.layout) : Shows d (t.drawFrame f) f := by
  intro i hi
  simp only [h.elim_size hs]
  intro x hx y hy
  obtain ⟨hisa, hle, hsize, hrows⟩ := hf i hi (Nat.zero_lt_of_lt hx) (Nat.zero_lt_of_lt hy)
  have hx' : x < (f.layout.drawSize i).1 := hx.trans_le hsize.1
  have hy' : y < (f.layout.drawSize i).2 := hy.trans_le hsize.2
  have hfirst : first.Has i := by
    by_contra hno
    rw [Layout.textureSize, if_neg hno] at hle
    exact absurd (hx'.trans_le hle.1) (Nat.not_lt_zero x)
  rw [h.drawFrame_content hs hfirst, if_pos hi, Option.bind_some,
    GLTexture.upload_texel h.base_isa (hle.trans_eq h.base_size.symm) hx' hy', hisa]
  -- the first row begins at the pointer; the other rows are where they are read
  unfold VideoFrame.sample
  rcases Nat.eq_zero_or_pos y with rfl | hpos
  · simp
  · rw [hrows (by omega)]

/-- What is defined in the textures begins with a zero. -/
def Dark (t : CXTexture) : Prop := ∀ i, ∀ c ∈ t.content i, c.Dark

theorem Dark.base (h : t.Dark) (first : Layout) (i : Fin 3) : (base first t i).Dark := by
  unfold CXTexture.base
  rcases hc : t.content i with _ | c
  · exact GLTexture.dark_new
  · exact h i c hc

theorem Follows.drawFrame_dark (h : Follows first t) (hs : Starts first t f.layout) (hd : t.Dark)
    (hb : ∀ i o, f.bytes i o = 0) : (t.drawFrame f).Dark := by
  intro i c hc
  by_cases hi : first.Has i
  · rw [h.drawFrame_content hs hi] at hc
    cases hc
    refine (hd.base first i).upload fun p hp o => ?_
    split at hp
    · cases hp
      exact hb i o
    · cases hp
  · rw [h.drawFrame_none hi] at hc
    cases hc

/-- A sample that does not begin with a zero was uploaded if it is in a texture that was dark. -/
theorem Follows.of_shows {d : Texels} {x y : ℕ} (h : Follows first t) (hs : Starts first t f.layout) (hd : t.Dark)
    (hshows : Shows d (t.drawFrame f) f) (hi : f.layout.Has i)
    (hx : x < (d.size (first.textureSize i) (f.layout.drawSize i) (f.layout.planeSize i)).1)
    (hy : y < (d.size (first.textureSize i) (f.layout.drawSize i) (f.layout.planeSize i)).2)
    (hne : (f.sample i x y).head? ≠ some 0) :
    f.layout.drawSize i ≤ first.textureSize i ∧ x < (f.layout.drawSize i).1 ∧ y < (f.layout.drawSize i).2 ∧
      f.sample i x y = (f.plane i).pixel (first.isa i)
        (y * unpackPitch ((f.layout.drawSize i).1 * bytesPerTexel (first.isa i)) + x * bytesPerTexel (first.isa i)) := by
  have hxy := hshows i hi
  simp only [h.elim_size hs] at hxy
  have hxy := hxy x hx y hy
  have hfirst : first.Has i := by
    by_contra hno
    rw [h.drawFrame_none hno] at hxy
    cases hxy
  rw [h.drawFrame_content hs hfirst, if_pos hi, Option.bind_some] at hxy
  have hchanged : ((base first t i).upload (first.isa i) (f.layout.drawSize i) (some (f.plane i))).raster.texel x y ≠
      (base first t i).raster.texel x y := by
    intro he
    exact hne (hd.base first i x y _ (he.symm.trans hxy))
  obtain ⟨hle, hx', hy', hisa, -⟩ := GLTexture.of_upload_ne hchanged
  rw [GLTexture.upload_texel hisa hle hx' hy'] at hxy
  rw [h.base_size] at hle
  exact ⟨hle, hx', hy', (Option.some.inj hxy).symm⟩

/-- A layout fits if its frames are in the textures whatever their bytes are. -/
theorem Follows.fits {d : Texels} {g : Layout} (h : Follows first t) (hs : Starts first t g) (hd : t.Dark)
    (hshows : ∀ bytes, Shows d (t.drawFrame ⟨g, bytes⟩) ⟨g, bytes⟩) : first.Fits d g := by
  intro i hi size hx hy
  -- a bright frame shows what is uploaded, here the last texel
  obtain ⟨hle, hx', hy', hpixel⟩ := h.of_shows hs hd (hshows fun _ _ => 1) hi (x := size.1 - 1) (y := size.2 - 1)
    (Nat.sub_one_lt hx.ne') (Nat.sub_one_lt hy.ne') (by
      rw [VideoFrame.sample, AVPlane.head?_pixel]
      simp [VideoFrame.plane])
  have hisa : first.isa i = g.isa i := by
    have hlength := congrArg List.length hpixel
    rw [VideoFrame.sample, AVPlane.length_pixel, AVPlane.length_pixel] at hlength
    exact (bytesPerTexel_inj hlength).symm
  refine ⟨hisa, hle, ⟨Nat.le_of_pred_lt hx', Nat.le_of_pred_lt hy'⟩, fun hrows => ?_⟩
  -- a frame that is bright only where its second row begins shows where that row is read
  obtain ⟨-, -, -, hpixel⟩ := h.of_shows hs hd (hshows fun _ o => if o = g.linesize i then 1 else 0) hi (x := 0) (y := 1)
    hx hrows (by
      rw [VideoFrame.sample, AVPlane.head?_pixel]
      simp [VideoFrame.plane])
  have hhead := congrArg List.head? hpixel
  rw [VideoFrame.sample, AVPlane.head?_pixel, AVPlane.head?_pixel] at hhead
  by_contra hpitch
  rw [hisa] at hhead
  simp [VideoFrame.plane, Ne.symm hpitch] at hhead

end

/-! ### Sequences of frames -/

/-- The texture that is created for a frame of the format. -/
def created (o : XShaderOutcomes) (format : ℤ) : CXTexture := (({} : CXTexture).init true format { shader := o }).2

theorem created_content (o : XShaderOutcomes) (format : ℤ) (i : Fin 3) : (created o format).content i = none :=
  XShader.content_of_texts (XShader.init_texts format o) _

theorem follows_created (o : XShaderOutcomes) (first : Layout) : Follows first (created o first.format) where
  type := init_type ..
  tidy := XShader.tidy_of_texts (XShader.init_texts first.format o)
  other := fun i _ => created_content o first.format i
  isa := fun i c hc => by
    rw [created_content] at hc
    cases hc
  size := fun i c hc => by
    rw [created_content] at hc
    cases hc

/-- The texture after the frames. -/
def drawn (o : XShaderOutcomes) (first : Layout) (fs : List VideoFrame) : CXTexture :=
  fs.foldl drawFrame (created o first.format)

section
variable {o : XShaderOutcomes} {first : Layout} {fs : List VideoFrame} {f : VideoFrame}

theorem drawn_snoc : drawn o first (fs ++ [f]) = (drawn o first fs).drawFrame f := by
  unfold drawn
  rw [List.foldl_append]
  rfl

theorem head?_snoc (h : ∀ g ∈ (fs ++ [f]).head?, g.layout = first) : ∀ g ∈ fs.head?, g.layout = first := by
  rcases fs with _ | ⟨a, fs⟩
  · exact fun g hg => by cases hg
  · exact h

/-- The first frame has the first layout, and after it there is storage. -/
theorem starts_drawn (h : ∀ g ∈ (fs ++ [f]).head?, g.layout = first)
    (hne : fs ≠ [] → ∀ i, first.Has i → (drawn o first fs).content i ≠ none) :
    Starts first (drawn o first fs) f.layout := by
  intro i hi hc
  rcases fs with _ | ⟨a, fs⟩
  · exact h f rfl
  · exact absurd hc (hne (List.cons_ne_nil a fs) i hi)

theorem follows_drawn (h : ∀ g ∈ fs.head?, g.layout = first) :
    Follows first (drawn o first fs) ∧ (fs ≠ [] → ∀ i, first.Has i → (drawn o first fs).content i ≠ none) := by
  induction fs using List.reverseRecOn with
  | nil => exact ⟨follows_created o first, fun hne => absurd rfl hne⟩
  | append_singleton fs f ih =>
    obtain ⟨hf, hne⟩ := ih (head?_snoc h)
    have hs := starts_drawn h hne
    rw [drawn_snoc]
    refine ⟨hf.drawFrame hs, fun _ i hi => ?_⟩
    rw [hf.drawFrame_content hs hi]
    exact Option.some_ne_none _

theorem dark_drawn (h : ∀ g ∈ fs.head?, g.layout = first) (hb : ∀ g ∈ fs, ∀ i o, g.bytes i o = 0) :
    (drawn o first fs).Dark := by
  induction fs using List.reverseRecOn with
  | nil =>
    intro i c hc
    rw [drawn, List.foldl_nil, created_content] at hc
    cases hc
  | append_singleton fs f ih =>
    obtain ⟨hf, hne⟩ := follows_drawn (o := o) (head?_snoc h)
    rw [drawn_snoc]
    exact hf.drawFrame_dark (starts_drawn h hne) (ih (head?_snoc h) fun g hg => hb g (List.mem_append_left _ hg))
      (hb f (by simp))

end

end CXTexture

open CXTexture

/-- A frame of zeros. -/
def VideoFrame.black (g : Layout) : VideoFrame := ⟨g, fun _ _ => 0⟩

theorem VideoFrame.map_black (gs : List Layout) : (gs.map black).map layout = gs := by
  induction gs with
  | nil => rfl
  | cons g gs ih => exact congrArg (g :: ·) ih

section
variable {o : XShaderOutcomes} {first : Layout} {rest : List Layout} {fs pre post : List VideoFrame} {f : VideoFrame}

theorem foldl_render (fs : List VideoFrame) (t : CXTexture) :
    (fs.foldl (fun (v : GLVideoView) f => v.render f.picture.recvFrame { shader := o })
      { view := true, txt := some t }).txt = some (fs.foldl drawFrame t) := by
  induction fs generalizing t with
  | nil => rfl
  | cons f fs ih => exact ih (t.drawFrame f)

/-- `Render` creates the texture for the format of the first frame. -/
theorem rendered_snoc (h : ∀ g ∈ (fs ++ [f]).head?, g.layout = first) :
    (rendered o (fs ++ [f])).txt = some ((drawn o first fs).drawFrame f) := by
  rw [← drawn_snoc]
  rcases fs with _ | ⟨a, fs⟩
  · have hf : f.layout = first := h f rfl
    rw [← hf]
    rfl
  · have ha : a.layout = first := h a rfl
    rw [← ha]
    exact foldl_render (fs ++ [f]) ((created o a.layout.format).drawFrame a)

theorem head_layout (h : (pre ++ f :: post).map VideoFrame.layout = first :: rest) :
    ∀ g ∈ (pre ++ [f]).head?, g.layout = first := by
  intro g hg
  rcases pre with _ | ⟨a, pre⟩
  · cases hg
    exact (List.cons.inj h).1
  · cases hg
    exact (List.cons.inj h).1

end

/-- The textures hold every frame of a sequence, whatever bytes the frames have, if and only if every layout of it fits
the first. -/
theorem textures_hold_frames (d : Texels) (o : XShaderOutcomes) (first : Layout) (rest : List Layout) :
    (∀ fs : List VideoFrame, fs.map VideoFrame.layout = first :: rest →
      ∀ pre f post, fs = pre ++ f :: post → ∃ t, (rendered o (pre ++ [f])).txt = some t ∧ Shows d t f) ↔
      ∀ g ∈ first :: rest, first.Fits d g := by
  constructor
  · intro hall g hg
    obtain ⟨pre, post, hsplit⟩ := List.append_of_mem hg
    -- all frames but the one of `g` are black
    have hlayout : ∀ bytes, (pre.map VideoFrame.black ++ (⟨g, bytes⟩ : VideoFrame) :: post.map VideoFrame.black).map
        VideoFrame.layout = first :: rest := by
      intro bytes
      rw [List.map_append, List.map_cons, VideoFrame.map_black, VideoFrame.map_black, hsplit]
    have hhead := fun bytes => head_layout (hlayout bytes)
    have hpre := head?_snoc (hhead fun _ _ => 0)
    obtain ⟨hf, hne⟩ := follows_drawn (o := o) hpre
    have hdark : (drawn o first (pre.map VideoFrame.black)).Dark := by
      refine dark_drawn hpre fun f hf i o => ?_
      obtain ⟨l, -, rfl⟩ := List.mem_map.mp hf
      rfl
    refine hf.fits (starts_drawn (hhead fun _ _ => 0) hne) hdark fun bytes => ?_
    obtain ⟨t, ht, hshows⟩ := hall _ (hlayout bytes) _ _ _ rfl
    rw [rendered_snoc (hhead bytes)] at ht
    cases ht
    exact hshows
  · rintro hfits _ hlayout pre f post rfl
    have hhead := head_layout hlayout
    obtain ⟨hf, hne⟩ := follows_drawn (o := o) (head?_snoc hhead)
    have hmem : f.layout ∈ first :: rest := by
      rw [← hlayout]
      exact List.mem_map.mpr ⟨f, by simp, rfl⟩
    exact ⟨_, rendered_snoc hhead, hf.shows (starts_drawn hhead hne) (hfits _ hmem)⟩

/-- A YUV420P frame of 4 by 4 pixels, with rows of 32 bytes and one white pixel below the corner. -/
def sheared : VideoFrame where
  layout := ⟨0, by decide, 4, 4, fun _ => 32, by decide⟩
  bytes _ o := if o = 32 then 255 else 0

theorem rows_sheared : ¬ ∃ d o t, (rendered o [sheared]).txt = some t ∧ Shows d t sheared := by
  rintro ⟨d, o, t, ht, hshows⟩
  have hhead : ∀ g ∈ ([] ++ [sheared]).head?, g.layout = sheared.layout := by
    intro g hg
    cases hg
    rfl
  have hf : Follows sheared.layout (drawn o sheared.layout []) := follows_created o sheared.layout
  have hstart : Starts sheared.layout (drawn o sheared.layout []) sheared.layout := fun _ _ _ => rfl
  have hdark : (drawn o sheared.layout []).Dark := dark_drawn (fun g hg => by cases hg) fun g hg => by cases hg
  have hr : (rendered o ([] ++ [sheared])).txt = some ((drawn o sheared.layout []).drawFrame sheared) :=
    rendered_snoc hhead
  cases ht.symm.trans hr
  obtain ⟨-, -, -, hpixel⟩ := hf.of_shows hstart hdark hshows (i := 0) (x := 0) (y := 1)
    (by decide) (by cases d <;> decide) (by cases d <;> decide) (by decide)
  revert hpixel
  decide

end XPlayer
