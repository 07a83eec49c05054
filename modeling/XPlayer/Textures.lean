import XPlayer.XTexture
import XPlayer.Lib.Raster

/-!
# The contents of the textures

`textures` is what OpenGL ES makes of the calls in `log`: `glTexImage2D` allocates storage, `glTexSubImage2D` reads rows
at `unpackPitch` and has no effect if the region exceeds the storage. From it the contents of the textures of an
`XShader` after `GetTexture` (`content_getTexture`), and of those of a `CXTexture` after `Draw` (`draw_content`).
-/

namespace XPlayer

/-! ### OpenGL ES -/

/-- A texture of one (`GL_LUMINANCE`) or two bytes (`GL_LUMINANCE_ALPHA`, `isa`) a texel. -/
structure GLTexture where
  isa : Bool
  raster : Raster (List UInt8)

/-- The byte or the two bytes at an offset. -/
def AVPlane.pixel (p : AVPlane) (isa : Bool) (offset : ℤ) : List UInt8 :=
  (List.range (bytesPerTexel isa)).map fun j => p.bytes (offset + j)

namespace GLTexture

def new (isa : Bool) (size : ℕ × ℕ) : GLTexture := ⟨isa, .blank size.1 size.2⟩

def size (t : GLTexture) : ℕ × ℕ := (t.raster.width, t.raster.height)

/-- Null is not read, and the format has to be that of the texture. -/
def upload (isa : Bool) (size : ℕ × ℕ) (buf : Option AVPlane) (t : GLTexture) : GLTexture :=
  match buf with
  | none => t
  | some p =>
    if t.isa = isa then
      { t with raster := t.raster.patch size.1 size.2 fun x y =>
          p.pixel isa (y * unpackPitch (size.1 * bytesPerTexel isa) + x * bytesPerTexel isa) }
    else t

end GLTexture

def GLCall.exec (m : GLObject → Option GLTexture) : GLCall AVPlane → GLObject → Option GLTexture
  | .texImage2D x isa width height => Function.update m x (some (.new isa (width, height)))
  | .texSubImage2D x isa width height buf => Function.update m x ((m x).map (.upload isa (width, height) buf))
  | .delete x => Function.update m x none
  | _ => m

/-- The textures after the calls of a log. -/
def textures : List (GLCall AVPlane) → GLObject → Option GLTexture
  | [] => fun _ => none
  | c :: log => c.exec (textures log)

/-- The texture of an index of `texts`. -/
def XShader.content (s : XShader AVPlane) (i : Fin 100) : Option GLTexture := (s.texts i).bind (textures s.log)

/-- The texture of a plane. -/
def CXTexture.content (t : CXTexture) (i : Fin 3) : Option GLTexture := t.sh.content (i.castLE (by decide))

theorem AVPlane.head?_pixel (p : AVPlane) (isa : Bool) (offset : ℤ) :
    (p.pixel isa offset).head? = some (p.bytes offset) := by
  cases isa <;> simp [pixel, bytesPerTexel, List.range_succ]

theorem AVPlane.length_pixel (p : AVPlane) (isa : Bool) (offset : ℤ) :
    (p.pixel isa offset).length = bytesPerTexel isa := by
  simp [pixel]

theorem bytesPerTexel_inj {isa isa' : Bool} (h : bytesPerTexel isa = bytesPerTexel isa') : isa = isa' := by
  revert isa isa'
  decide

namespace GLTexture
variable {t : GLTexture} {isa : Bool} {size : ℕ × ℕ} {buf : Option AVPlane} {x y : ℕ}

@[simp] theorem new_size : (new isa size).size = size := rfl

@[simp] theorem upload_isa : (t.upload isa size buf).isa = t.isa := by
  unfold upload
  split
  · rfl
  · split <;> rfl

@[simp] theorem upload_size : (t.upload isa size buf).size = t.size := by
  unfold upload GLTexture.size
  split
  · rfl
  · split
    · simp only [Raster.patch_width, Raster.patch_height]
    · rfl

theorem upload_texel {p : AVPlane} (hi : t.isa = isa) (hs : size ≤ t.size) (hx : x < size.1) (hy : y < size.2) :
    (t.upload isa size (some p)).raster.texel x y =
      some (p.pixel isa (y * unpackPitch (size.1 * bytesPerTexel isa) + x * bytesPerTexel isa)) := by
  simp only [upload, if_pos hi]
  exact Raster.patch_inside (Prod.le_def.mp hs) hx hy

theorem of_upload_ne (h : (t.upload isa size buf).raster.texel x y ≠ t.raster.texel x y) :
    size ≤ t.size ∧ x < size.1 ∧ y < size.2 ∧ t.isa = isa ∧ buf ≠ none := by
  rcases buf with _ | p
  · exact absurd rfl h
  · by_cases hi : t.isa = isa
    · simp only [upload, if_pos hi] at h
      obtain ⟨hs, hx, hy⟩ := Raster.of_patch_ne h
      exact ⟨Prod.le_def.mpr hs, hx, hy, hi, Option.some_ne_none p⟩
    · simp only [upload, if_neg hi] at h
      exact absurd rfl h

/-- The texels that are defined begin with a zero. -/
def Dark (t : GLTexture) : Prop := t.raster.All fun a => a.head? = some 0

theorem dark_new : (new isa size).Dark := Raster.all_blank

theorem Dark.upload (h : t.Dark) (hb : ∀ p ∈ buf, ∀ o, p.bytes o = 0) : (t.upload isa size buf).Dark := by
  unfold GLTexture.upload
  split
  · exact h
  · rename_i p
    split
    · refine Raster.All.patch h fun x y => ?_
      rw [AVPlane.head?_pixel, hb p rfl]
    · exact h

end GLTexture

/-! ### What the calls of `XShader` do to the textures -/

namespace XShader
variable {s : XShader AVPlane}

/-- Different indices have different textures, with storage. -/
structure Tidy (s : XShader AVPlane) : Prop where
  inj : ∀ i j, ∀ x ∈ s.texts i, x ∈ s.texts j → i = j
  lt : ∀ i, ∀ x ∈ s.texts i, x.id < s.next
  stored : ∀ i, ∀ x ∈ s.texts i, textures s.log x ≠ none

theorem tidy_of_texts (h : s.texts = fun _ => none) : s.Tidy := by
  constructor
  · intro i j x hx
    rw [h] at hx
    cases hx
  · intro i x hx
    rw [h] at hx
    cases hx
  · intro i x hx
    rw [h] at hx
    cases hx

theorem content_of_texts (h : s.texts = fun _ => none) (i : Fin 100) : s.content i = none := by
  simp only [content, h, Option.bind_none]

/-- The upload to an index, which gets new storage if it has none. -/
def put (index : Fin 100) (size : ℕ × ℕ) (buf : Option AVPlane) (isa : Bool) (c : Fin 100 → Option GLTexture) :
    Fin 100 → Option GLTexture :=
  Function.update c index (some (((c index).getD (.new isa size)).upload isa size buf))

section
variable (h : s.Tidy) (index : Fin 100) (width height : ℕ) (buf : Option AVPlane) (isa : Bool)
include h

theorem Tidy.getTexture : (s.getTexture index width height buf isa).Tidy := by
  rcases hi : s.texts index with _ | x
  · rw [getTexture_none _ _ _ _ hi]
    have htexts : ∀ i, ∀ x ∈ Function.update s.texts index (some ⟨.texture, s.next⟩) i,
        i = index ∧ x = ⟨.texture, s.next⟩ ∨ x ∈ s.texts i := by
      intro i x hx
      by_cases he : i = index
      · rw [he, Function.update_self] at hx
        cases hx
        exact .inl ⟨he, rfl⟩
      · rw [Function.update_of_ne he] at hx
        exact .inr hx
    constructor
    · intro i j x hx hx'
      rcases htexts i x hx with ⟨rfl, rfl⟩ | hold
      · rcases htexts j _ hx' with ⟨rfl, -⟩ | hold'
        · rfl
        · exact absurd (h.lt j _ hold') (Nat.lt_irrefl _)
      · rcases htexts j x hx' with ⟨rfl, rfl⟩ | hold'
        · exact absurd (h.lt i _ hold) (Nat.lt_irrefl _)
        · exact h.inj i j x hold hold'
    · intro i x hx
      rcases htexts i x hx with ⟨rfl, rfl⟩ | hx
      · exact Nat.lt_succ_self _
      · exact Nat.lt_succ_of_lt (h.lt i x hx)
    · intro i x hx
      simp only [textures, GLCall.exec, Function.update_self, Option.map_some]
      by_cases he : x = ⟨.texture, s.next⟩
      · rw [he, Function.update_self]
        exact Option.some_ne_none _
      · rw [Function.update_of_ne he, Function.update_of_ne he]
        rcases htexts i x hx with ⟨-, hx⟩ | hx
        · exact absurd hx he
        · exact h.stored i x hx
  · rw [getTexture_some _ _ _ _ hi]
    refine ⟨h.inj, h.lt, fun i y hy => ?_⟩
    have hstored := h.stored i y hy
    simp only [textures, GLCall.exec]
    by_cases he : y = x
    · rw [he, Function.update_self]
      rw [he] at hstored
      exact fun hm => hstored (Option.map_eq_none_iff.mp hm)
    · rwa [Function.update_of_ne he]

theorem Tidy.content_getTexture :
    (s.getTexture index width height buf isa).content = put index (width, height) buf isa s.content := by
  funext i
  unfold put
  rcases hi : s.texts index with _ | x
  · rw [getTexture_none _ _ _ _ hi]
    by_cases he : i = index
    · simp only [content, textures, GLCall.exec, he, hi, Function.update_self, Option.bind_some, Option.bind_none,
        Option.map_some, Option.getD_none]
    · simp only [content, textures, GLCall.exec, Function.update_of_ne he]
      refine Option.bind_congr fun y hy => ?_
      have hne : y ≠ ⟨.texture, s.next⟩ := by
        rintro rfl
        have hlt := h.lt i _ hy
        exact absurd hlt (Nat.lt_irrefl _)
      rw [Function.update_of_ne hne, Function.update_of_ne hne]
  · rw [getTexture_some _ _ _ _ hi]
    by_cases he : i = index
    · obtain ⟨t, ht⟩ := Option.ne_none_iff_exists'.mp (h.stored index x hi)
      simp only [content, textures, GLCall.exec, he, hi, Function.update_self, Option.bind_some, ht, Option.map_some,
        Option.getD_some]
    · simp only [content, textures, GLCall.exec, Function.update_of_ne he]
      refine Option.bind_congr fun y hy => ?_
      have hne : y ≠ x := by
        rintro rfl
        exact he (h.inj i index _ hy hi)
      rw [Function.update_of_ne hne]

theorem Tidy.draw : s.draw.Tidy := by
  unfold XShader.draw
  split
  · exact h
  · exact ⟨h.inj, h.lt, h.stored⟩

end

theorem content_draw : s.draw.content = s.content := by
  unfold XShader.draw
  split <;> rfl

/-- `Init` forgets the textures of the format before. -/
theorem init_texts (type : ℤ) (o : XShaderOutcomes) : (s.init type o).2.texts = fun _ => none := by
  refine init_rule (P := fun s => s.texts = fun _ => none) ?_ ?_ ?_ rfl type o
  · intro s k hs
    exact hs
  · intro s v f p hs
    exact hs
  · intro s p hs
    exact hs

end XShader

/-! ### `Draw` -/

/-- YUV420P has a plane for each component, NV12 and NV21 have one for the two of the color. -/
def planeCount (format : ℤ) : ℕ := if format = XTEXTURE_YUV420P then 3 else 2

/-- The size of a plane of a frame of the size: the color has one sample for each square of four pixels. -/
def planeSize (i : Fin 3) (width height : ℕ) : ℕ × ℕ :=
  if i = 0 then (width, height) else ((width + 1) / 2, (height + 1) / 2)

/-- The size of the region that `Draw` uploads. -/
def drawSize (i : Fin 3) (width height : ℕ) : ℕ × ℕ := if i = 0 then (width, height) else (width / 2, height / 2)

/-- Whether a sample of the plane is two bytes. -/
def paired (format : ℤ) (i : Fin 3) : Bool := format ≠ XTEXTURE_YUV420P ∧ i = 1

/-- The indices of the planes in `texts` and in `datas`. -/
theorem castLE_cases (i : Fin 3) :
    i = 0 ∧ i.castLE (by decide : 3 ≤ 100) = 0 ∧ i.castLE (by decide : 3 ≤ 8) = 0 ∨
      i = 1 ∧ i.castLE (by decide : 3 ≤ 100) = 1 ∧ i.castLE (by decide : 3 ≤ 8) = 1 ∨
      i = 2 ∧ i.castLE (by decide : 3 ≤ 100) = 2 ∧ i.castLE (by decide : 3 ≤ 8) = 2 := by
  revert i
  decide

namespace CXTexture
variable {t : CXTexture} (data : Fin 8 → Option AVPlane) (width height : ℕ)

theorem draw_tidy (h : t.sh.Tidy) : (t.draw data width height).sh.Tidy := by
  have hy := h.getTexture 0 width height (data 0) false
  unfold draw
  simp only
  split_ifs
  · exact ((hy.getTexture 1 _ _ _ _).getTexture 2 _ _ _ _).draw
  · exact (hy.getTexture 1 _ _ _ _).draw

/-- `Draw` uploads the planes that the type of the texture has. -/
theorem draw_content (h : t.sh.Tidy) (i : Fin 3) :
    (t.draw data width height).content i =
      if i < planeCount t.type then
        some (((t.content i).getD (.new (paired t.type i) (drawSize i width height))).upload
          (paired t.type i) (drawSize i width height) (data (i.castLE (by decide))))
      else t.content i := by
  have hy := h.getTexture 0 width height (data 0) false
  have h01 : (1 : Fin 100) ≠ 0 := by decide
  have h02 : (2 : Fin 100) ≠ 0 := by decide
  have h12 : (2 : Fin 100) ≠ 1 := by decide
  unfold draw content
  simp only
  by_cases ht : t.type = XTEXTURE_YUV420P
  · have hu := hy.getTexture 1 (width / 2) (height / 2) (data 1) false
    rw [if_pos ht, XShader.content_draw, hu.content_getTexture, hy.content_getTexture, h.content_getTexture]
    rcases castLE_cases i with ⟨rfl, hi, hi'⟩ | ⟨rfl, hi, hi'⟩ | ⟨rfl, hi, hi'⟩
    · simp [hi, hi', XShader.put, planeCount, paired, drawSize, ht, h01.symm, h02.symm]
    · simp [hi, hi', XShader.put, planeCount, paired, drawSize, ht, h12.symm, h01]
    · simp [hi, hi', XShader.put, planeCount, paired, drawSize, ht, h12, h02]
  · rw [if_neg ht, XShader.content_draw, hy.content_getTexture, h.content_getTexture]
    rcases castLE_cases i with ⟨rfl, hi, hi'⟩ | ⟨rfl, hi, hi'⟩ | ⟨rfl, hi, hi'⟩
    · simp [hi, hi', XShader.put, planeCount, paired, drawSize, ht, h01.symm]
    · simp [hi, hi', XShader.put, planeCount, paired, drawSize, ht, h01]
    · simp [hi, XShader.put, planeCount, ht, h12, h02]

end CXTexture

end XPlayer
