import XPlayer.Lib.Lifecycle
import Mathlib.Data.List.FinRange

/-!
# `XShader`

`Init`, `Close`, `GetTexture` and `Draw` on the names of the shaders, the program and the textures, for every outcome
of the calls of OpenGL ES, and the life cycle of these names. `log` has the calls, newest first; a pointer to pixels
is of a type `β`.
-/

namespace XPlayer
open Lifecycle
variable {β : Type}

/-- `XShaderType`: any `int` may be cast to it. -/
def XSHADER_YUV420P : ℤ := 0

def XSHADER_NV12 : ℤ := 25

def XSHADER_NV21 : ℤ := 26

inductive GLKind
  | shader
  | program
  | texture
  deriving DecidableEq

structure GLObject where
  kind : GLKind
  id : ℕ
  deriving DecidableEq

inductive GLCall (β : Type)
  | create (x : GLObject)
  | delete (x : GLObject)
  | useProgram (p : GLObject)
  /-- `glTexImage2D` without pixels; `isa` is `GL_LUMINANCE_ALPHA`. -/
  | texImage2D (x : GLObject) (isa : Bool) (width height : ℕ)
  | texSubImage2D (x : GLObject) (isa : Bool) (width height : ℕ) (buf : Option β)
  /-- `glDrawArrays` after the test of `p`, while `used` is in use. -/
  | drawArrays (p : GLObject) (used : Option GLObject)

structure XShader (β : Type) where
  vsh : Option GLObject := none
  fsh : Option GLObject := none
  program : Option GLObject := none
  texts : Fin 100 → Option GLObject := fun _ => none
  /-- The program of the last `glUseProgram`. -/
  used : Option GLObject := none
  next : ℕ := 0
  /-- `next` at the last `Close`. -/
  closed : ℕ := 0
  log : List (GLCall β) := []

/-- `InitShader` fails before there is a shader, or with a shader that does not compile. -/
inductive ShaderOutcome
  | notCreated
  | notCompiled
  | compiled
  deriving DecidableEq

structure XShaderOutcomes where
  vertex : ShaderOutcome := .compiled
  fragment : ShaderOutcome := .compiled
  glCreateProgram : Bool := true
  glLinkProgram : Bool := true

namespace XShader

/-- What `Close` deletes, in its order. -/
def names (s : XShader β) : List GLObject :=
  s.program.toList ++ s.fsh.toList ++ s.vsh.toList ++ (List.finRange 100).filterMap s.texts

/-- Only the textures are set to 0. -/
def close (s : XShader β) : XShader β :=
  { s with texts := fun _ => none, closed := s.next, log := s.names.reverse.map .delete ++ s.log }

def create (k : GLKind) (s : XShader β) : GLObject × XShader β :=
  let x : GLObject := ⟨k, s.next⟩
  (x, { s with next := s.next + 1, log := .create x :: s.log })

def initShader (o : ShaderOutcome) (s : XShader β) : Option GLObject × XShader β :=
  match o with
  | .notCreated => (none, s)
  -- the shader is not deleted
  | .notCompiled => (none, (s.create .shader).2)
  | .compiled => let (x, s) := s.create .shader; (some x, s)

/-- The cases of the `switch` in `Init`. -/
def Known (type : ℤ) : Prop := type = XSHADER_YUV420P ∨ type = XSHADER_NV12 ∨ type = XSHADER_NV21

instance (type : ℤ) : Decidable (Known type) := inferInstanceAs (Decidable (_ ∨ _ ∨ _))

/-- `Init` from the creation of the program on. -/
def initProgram (o : XShaderOutcomes) (s : XShader β) : Bool × XShader β :=
  if o.glCreateProgram = false then (false, { s with program := none })
  else
    let (p, s) := s.create .program
    let s := { s with program := some p }
    if o.glLinkProgram = false then (false, s) else (true, { s with used := some p, log := .useProgram p :: s.log })

def init (type : ℤ) (o : XShaderOutcomes) (s : XShader β) : Bool × XShader β :=
  match s.close.initShader o.vertex with
  | (none, s) => (false, { s with vsh := none })
  | (some v, s) =>
    let s := { s with vsh := some v }
    if Known type then
      match s.initShader o.fragment with
      | (none, s) => (false, { s with fsh := none })
      | (some f, s) => { s with fsh := some f }.initProgram o
    else (false, s)

/-- What the pieces of `Init` keep holds after it. -/
theorem init_rule {P : XShader β → Prop} {s : XShader β} (hcreate : ∀ s k, P s → P (s.create k).2)
    (hstore : ∀ s v f p, P s → P { s with vsh := v, fsh := f, program := p })
    (huse : ∀ s p, P s → P { s with used := some p, log := .useProgram p :: s.log })
    (h : P s.close) (type : ℤ) (o : XShaderOutcomes) : P (s.init type o).2 := by
  have hshader : ∀ (s : XShader β) o, P s → P (s.initShader o).2 := by
    intro s o hs
    cases o with
    | notCreated => exact hs
    | notCompiled => exact hcreate s .shader hs
    | compiled => exact hcreate s .shader hs
  have hprogram : ∀ s : XShader β, P s → P (s.initProgram o).2 := by
    intro s hs
    have hp := hstore _ s.vsh s.fsh (some (s.create .program).1) (hcreate s .program hs)
    unfold initProgram
    split
    · exact hstore s s.vsh s.fsh none hs
    · simp only
      split
      · exact hp
      · exact huse _ _ hp
  have hv := hshader s.close o.vertex h
  unfold init
  split
  · rename_i t ht
    rw [ht] at hv
    exact hstore t none t.fsh t.program hv
  · rename_i v t ht
    rw [ht] at hv
    have hv := hstore t v t.fsh t.program hv
    simp only
    split
    · have hf := hshader _ o.fragment hv
      split
      · rename_i u hu
        rw [hu] at hf
        exact hstore u u.vsh none u.program hf
      · rename_i f u hu
        rw [hu] at hf
        exact hprogram _ (hstore u u.vsh f u.program hf)
    · exact hv

def draw (s : XShader β) : XShader β :=
  match s.program with
  | none => s
  | some p => { s with log := .drawArrays p s.used :: s.log }

/-- The texture of the index, which gets its storage when it is created. -/
def texture (index : Fin 100) (width height : ℕ) (isa : Bool) (s : XShader β) : GLObject × XShader β :=
  match s.texts index with
  | some x => (x, s)
  | none =>
    let (x, s) := s.create .texture
    (x, { s with texts := Function.update s.texts index (some x), log := .texImage2D x isa width height :: s.log })

def getTexture (index : Fin 100) (width height : ℕ) (buf : Option β) (isa : Bool) (s : XShader β) : XShader β :=
  let (x, s) := s.texture index width height isa
  { s with log := .texSubImage2D x isa width height buf :: s.log }

section
variable {s : XShader β} {index : Fin 100} {x : GLObject} (width height : ℕ) (buf : Option β) (isa : Bool)

theorem getTexture_some (h : s.texts index = some x) :
    s.getTexture index width height buf isa = { s with log := .texSubImage2D x isa width height buf :: s.log } := by
  simp only [getTexture, texture, h]

theorem getTexture_none (h : s.texts index = none) :
    s.getTexture index width height buf isa =
      { s with texts := Function.update s.texts index (some ⟨.texture, s.next⟩), next := s.next + 1,
               log := .texSubImage2D ⟨.texture, s.next⟩ isa width height buf ::
                 .texImage2D ⟨.texture, s.next⟩ isa width height :: .create ⟨.texture, s.next⟩ :: s.log } := by
  simp only [getTexture, texture, h, create]

end

end XShader

end XPlayer
