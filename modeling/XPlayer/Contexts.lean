import XPlayer.CloseClears
import XPlayer.OpenFile
import XPlayer.Lib.Slots

/-!
# The contexts of the library

What `Open`, `RecvFrame` and `Close` allocate and free: the demux context, the codec contexts, the decoded frames and
the resampler context, each behind the one pointer of its component. `tracked` is the player together with these
objects. `Close` reaches all of them but the resampler context: `FFResample::Close` is never called, and
`FFResample::Open` overwrites `actx`.
-/

namespace XPlayer
variable {K : Type} {L : FFmpeg K}

/-- The objects of the library, by the pointer they are stored in. -/
inductive Ctx
  /-- `FFDemux::ic`. -/
  | demux
  /-- `FFDecode::codec`. -/
  | codec (d : Dec)
  /-- `FFDecode::frame`. -/
  | frame (d : Dec)
  /-- `FFResample::actx`. -/
  | swr
  deriving DecidableEq

/-- The step of `Close` that frees the object; `Close` has 19 steps. -/
def Ctx.freedAt : Ctx → ℕ
  | .codec .video | .frame .video => 13
  | .codec .audio | .frame .audio => 15
  | .demux => 16
  | .swr => 19

abbrev Contexts := Slots Ctx

namespace Contexts

/-- `avformat_open_input` on `ic`; when it fails, it frees what it is given. -/
def openInput (o : OpenInput) (m : Contexts) : Contexts :=
  match o with
  | .failed => m.free .demux
  | .noInfo _ | .opened _ => if m.ptr .demux = none then m.alloc .demux else m

/-- `FFDecode::Close`. -/
def freeDec (d : Dec) (m : Contexts) : Contexts := (m.free (.frame d)).free (.codec d)

/-- `FFDecode::Open` after `Close`. -/
def openDec (d : Dec) (para : XParameter) (o : OpenCodec) (m : Contexts) : Contexts :=
  match para.para, o with
  | none, _ | _, .notFound => m
  | some _, .failed | some _, .opened => m.alloc (.codec d)

/-- `RecvFrame`. -/
def recvFrame (d : Dec) (m : Contexts) : Contexts :=
  if m.ptr (.codec d) = none ∨ m.ptr (.frame d) ≠ none then m else m.alloc (.frame d)

/-- What a command does, in the state before it. -/
def command (s : Player K) (m : Contexts) : Cmd → Contexts
  | .free d => freeDec d m
  | .closeDemux => m.free .demux
  | .openDemux o => openInput o m
  | .openDec d o => openDec d (if d = .video then s.demux.getVideoPara.1 else s.demux.getAudioPara.1) o m
  -- whatever `actx` is
  | .openResample _ => m.alloc .swr
  | .seek _ _ (.recv _) => recvFrame .video m
  | _ => m

/-- What a step does, in the state before it. -/
def step (s : Player K) (m : Contexts) : Act → Contexts
  | .dec d n =>
    match s.decW d n with
    | .recv _ => recvFrame d m
    | _ => m
  | .ui =>
    match s.ui with
    | [] => m
    | c :: _ => command s m c
  | _ => m

end Contexts

/-- The player with its contexts. -/
def tracked (L : FFmpeg K) : Sys (Player K × Contexts) Act where
  init s := (player L).init s.1 ∧ s.2 = {}
  step a s := (s.1.step L a).map fun t => (t, Contexts.step s.1 s.2 a)

/-- The calls in the history. -/
def Event.call : Event → Option CallKind
  | .called k => some k
  | _ => none

theorem call_calls (e : Event) (h : e.calls = false) : e.call = none := by
  cases e <;> first | rfl | cases h

theorem call_moves (e : Event) (h : e.moves = true) : e.call = none := by
  cases e <;> first | rfl | cases h

/-- The last call. -/
def Player.lastCall (s : Player K) : Option CallKind := (s.log.filterMap Event.call).head?

theorem Player.lastCall_congr {s t : Player K} (h : t.log.filterMap Event.call = s.log.filterMap Event.call) :
    t.lastCall = s.lastCall := congrArg List.head? h

namespace Contexts
open Player (Steps Commands)
variable {p q : Player K} {m : Contexts}

/-- The steps of `tracked`, by what they do to the contexts. -/
inductive Moves (L : FFmpeg K) (p q : Player K) (m : Contexts) : Act → Contexts → Prop
  | keep {a} (hui : a ≠ .ui) (hr : ∀ c, a ≠ .request c) (h : Steps L p a q) : Moves L p q m a m
  | recv {d n x} (hw : p.decW d n = .recv x) (h : Steps L p (.dec d n) q) : Moves L p q m (.dec d n) (recvFrame d m)
  | command {c cs t cs'} (hui : p.ui = c :: cs) (h : Commands L cs p c t cs') (hq : q = { t with ui := cs' }) :
    Moves L p q m .ui (command p m c)
  | request {c} (hui : p.ui = []) (hq : q = { p.emit (.called c.kind) with ui := c.program }) :
    Moves L p q m (.request c) m

theorem moves {a : Act} {s t : Player K × Contexts} (h : (tracked L).step a s = some t) :
    Moves L s.1 t.1 s.2 a t.2 := by
  obtain ⟨q, hq, rfl⟩ := Option.map_eq_some_iff.mp h
  have hs := Player.steps hq
  cases a with
  | ui =>
    cases hs with
    | ui hui hc =>
      simp only [step, hui]
      exact .command hui hc rfl
  | request c =>
    cases hs with
    | request hui => exact .request hui rfl
  | dec d n =>
    simp only [step]
    split
    · exact .recv ‹_› hs
    · exact .keep nofun nofun hs
  | _ => exact .keep nofun nofun hs

/-! ### Nothing is allocated over a pointer that is not null -/

/-- `d` is opened only after it is closed; `b` says that its codec context is null now. -/
def closedFirst (d : Dec) : Bool → List Cmd → Bool
  | _, [] => true
  | b, .free e :: cs => closedFirst d (b || decide (e = d)) cs
  | b, .openDec e _ :: cs => if e = d then b && closedFirst d false cs else closedFirst d b cs
  | b, _ :: cs => closedFirst d b cs

theorem closedFirst_mono {d : Dec} {b b' : Bool} {cs : List Cmd} (hb : b = true → b' = true)
    (h : closedFirst d b cs = true) : closedFirst d b' cs = true := by
  induction cs generalizing b b' with
  | nil => rfl
  | cons c cs ih =>
    cases c with
    | free e =>
      refine ih (fun he => ?_) h
      rw [Bool.or_eq_true] at he ⊢
      exact he.imp_left hb
    | openDec e o =>
      simp only [closedFirst] at h ⊢
      split
      · rw [if_pos ‹_›, Bool.and_eq_true] at h
        rw [Bool.and_eq_true]
        exact ⟨hb h.1, h.2⟩
      · rw [if_neg ‹_›] at h
        exact ih hb h
    | _ => exact ih hb h

/-- Every call closes a decoder before it opens it. -/
theorem closedFirst_program (d : Dec) (b : Bool) (c : Call) : closedFirst d b c.program = true := by
  refine closedFirst_mono (b := false) nofun ?_
  cases c with
  | «open» o v a swr_init => cases d <;> rfl
  | start sl => cases sl <;> rfl
  | _ => rfl

/-- What the controller has still to do opens no decoder that has a codec context. -/
def Ready (m : Contexts) (cs : List Cmd) : Prop := ∀ d, closedFirst d (m.ptr (.codec d)).isNone cs = true

theorem openInput_eq (o : OpenInput) : openInput o m = m.free .demux ∨ openInput o m = m ∨
    openInput o m = m.alloc .demux ∧ m.ptr .demux = none := by
  cases o with
  | failed => exact .inl rfl
  | noInfo ic | opened ic =>
    simp only [openInput]
    split
    · exact .inr (.inr ⟨rfl, ‹_›⟩)
    · exact .inr (.inl rfl)

theorem openDec_eq (d : Dec) (para : XParameter) (o : OpenCodec) :
    openDec d para o m = m ∨ openDec d para o m = m.alloc (.codec d) := by
  unfold openDec
  split
  · exact .inl rfl
  · exact .inl rfl
  · exact .inr rfl
  · exact .inr rfl

/-- The frame of a decoder is allocated once, and only for a codec context. -/
theorem recvFrame_eq (d : Dec) : recvFrame d m = m ∨
    recvFrame d m = m.alloc (.frame d) ∧ m.ptr (.frame d) = none ∧ m.ptr (.codec d) ≠ none := by
  unfold recvFrame
  split
  · exact .inl rfl
  · rename_i hn
    obtain ⟨h1, h2⟩ := not_or.mp hn
    exact .inr ⟨rfl, not_not.mp h2, h1⟩

theorem recvFrame_codec (d e : Dec) : (recvFrame e m).ptr (.codec d) = m.ptr (.codec d) := by
  rcases recvFrame_eq (m := m) e with h | ⟨h, -⟩ <;> rw [h]
  exact Slots.alloc_ne nofun

theorem command_codec {c : Cmd} (h1 : ∀ e, c ≠ .free e) (h2 : ∀ e o, c ≠ .openDec e o) (d : Dec) :
    (command p m c).ptr (.codec d) = m.ptr (.codec d) := by
  cases c with
  | free e => exact absurd rfl (h1 e)
  | openDec e o => exact absurd rfl (h2 e o)
  | closeDemux => exact Slots.free_ne nofun
  | openDemux o =>
    simp only [command]
    rcases openInput_eq (m := m) o with h | h | ⟨h, -⟩ <;> rw [h]
    · exact Slots.free_ne nofun
    · exact Slots.alloc_ne nofun
  | openResample => exact Slots.alloc_ne nofun
  | seek pos f pc =>
    cases pc with
    | recv => exact recvFrame_codec d .video
    | _ => rfl
  | _ => rfl

theorem Ready.command {c : Cmd} {cs cs' : List Cmd} (h : Ready m (c :: cs)) (hc : Commands L cs p c q cs') :
    Ready (command p m c) cs' := by
  intro d
  have h := h d
  cases hc with
  | @free e =>
    refine closedFirst_mono (fun hb => Option.isNone_iff_eq_none.mpr ?_) h
    by_cases he : e = d
    · subst he
      exact Slots.free_self
    · simp only [he, decide_false, Bool.or_false, Option.isNone_iff_eq_none] at hb
      exact Slots.free_none (Slots.free_none hb)
  | @openDec e o =>
    simp only [closedFirst] at h
    simp only [Contexts.command]
    by_cases he : e = d
    · rw [if_pos he, Bool.and_eq_true] at h
      exact closedFirst_mono (b := false) nofun h.2
    · rw [if_neg he] at h
      have hne : Ctx.codec d ≠ .codec e := fun hd => he (Ctx.codec.inj hd).symm
      rcases openDec_eq (m := m) e (if e = .video then p.demux.getVideoPara.1 else p.demux.getAudioPara.1) o with
        ho | ho <;> rw [ho]
      · exact h
      · rwa [Slots.alloc_ne hne]
  | openFailed => rfl
  | _ =>
    rw [command_codec (fun _ he => by cases he) fun _ _ he => by cases he]
    exact h

theorem recvFrame_tight {k : Ctx} (h : m.Tight k) (d : Dec) : (recvFrame d m).Tight k := by
  rcases recvFrame_eq (m := m) d with he | ⟨he, hp, -⟩ <;> rw [he]
  · exact h
  · exact h.alloc fun _ => hp

theorem command_tight {k : Ctx} {c : Cmd} {cs : List Cmd} (hk : k ≠ .swr) (h : m.Tight k) (hr : Ready m (c :: cs)) :
    (command p m c).Tight k := by
  cases c with
  | free e => exact h.free.free
  | closeDemux => exact h.free
  | openDemux o =>
    simp only [command]
    rcases openInput_eq (m := m) o with he | he | ⟨he, hp⟩ <;> rw [he]
    · exact h.free
    · exact h
    · exact h.alloc fun _ => hp
  | openDec e o =>
    have hr : closedFirst e _ _ = true := hr e
    simp only [closedFirst, if_true, Bool.and_eq_true, Option.isNone_iff_eq_none] at hr
    simp only [command]
    rcases openDec_eq (m := m) e (if e = .video then p.demux.getVideoPara.1 else p.demux.getAudioPara.1) o with
      ho | ho <;> rw [ho]
    · exact h
    · exact h.alloc fun _ => hr.1
  | openResample => exact h.alloc fun he => absurd he hk
  | seek pos f pc =>
    cases pc with
    | recv => exact recvFrame_tight h .video
    | _ => exact h
  | _ => exact h

/-! ### What `Close` frees -/

/-- What the first `k` steps of `Close` have freed. -/
def Freed (k : ℕ) (m : Contexts) : Prop := ∀ x : Ctx, x.freedAt < k → m.ptr x = none

theorem Freed.recvFrame {k : ℕ} (h : Freed k m) (d : Dec) : Freed k (recvFrame d m) := by
  intro x hx
  rcases recvFrame_eq (m := m) d with he | ⟨he, -, hc⟩ <;> rw [he]
  · exact h x hx
  · -- the frame of a decoder is freed together with its codec context
    have hd : x ≠ .frame d := by
      rintro rfl
      exact hc (h (.codec d) (by cases d <;> exact hx))
    rw [Slots.alloc_ne hd]
    exact h x hx

theorem Freed.command {k : ℕ} {c : Cmd} {cs : List Cmd} (h : Freed k m) (hc : c :: cs = closeFrom k) :
    Freed (k + 1) (Contexts.command p m c) := by
  intro x hx
  obtain ⟨hcalm, -, hseek, -⟩ := Player.closeFrom_cons hc
  have hold : m.ptr x = none → (Contexts.command p m c).ptr x = none := by
    intro hm
    cases c with
    | free e => exact Slots.free_none (Slots.free_none hm)
    | closeDemux => exact Slots.free_none hm
    | seek pos f pc => exact absurd rfl (hseek pos f pc)
    | openDemux | openDec | openResample => cases hcalm
    | _ => exact hm
  rcases Nat.lt_or_eq_of_le (Nat.le_of_lt_succ hx) with hx | rfl
  · exact hold (h x hx)
  · have hh : some c = (closeFrom x.freedAt).head? := congrArg List.head? hc
    cases x with
    | demux =>
      cases hh
      exact Slots.free_self
    | codec d =>
      cases d <;> cases hh <;> exact Slots.free_self
    | frame d =>
      cases d <;> cases hh <;> exact Slots.free_none Slots.free_self
    | swr => cases hh

/-! ### The player with its contexts -/

structure Inv (p : Player K) (m : Contexts) : Prop where
  tight : ∀ x, x ≠ .swr → m.Tight x
  ready : Ready m p.ui
  freed : p.lastCall = some .close → ∃ k ≤ 19, p.ui = closeFrom k ∧ Freed k m

theorem closeFrom_nil {k : ℕ} : closeFrom k = [] ↔ 19 ≤ k := List.drop_eq_nil_iff

theorem Inv.step {a : Act} {m' : Contexts} (h : Inv p m) (hs : Moves L p q m a m') : Inv q m' := by
  cases hs with
  | keep hui hr hs =>
    refine ⟨h.tight, ?_, ?_⟩
    · rw [hs.ui_eq hui hr]
      exact h.ready
    · rw [hs.ui_eq hui hr, Player.lastCall_congr (hs.log_eq call_calls hui hr)]
      exact h.freed
  | @recv d n x hw hs =>
    refine ⟨fun y hy => recvFrame_tight (h.tight y hy) d, fun e => ?_, fun hl => ?_⟩
    · rw [recvFrame_codec, hs.ui_eq nofun nofun]
      exact h.ready e
    · rw [Player.lastCall_congr (hs.log_eq call_calls nofun nofun)] at hl
      obtain ⟨k, hk, hui, hf⟩ := h.freed hl
      exact ⟨k, hk, (hs.ui_eq nofun nofun).trans hui, hf.recvFrame d⟩
  | @command c cs t cs' hui hc hq =>
    subst hq
    have hr := h.ready
    rw [hui] at hr
    refine ⟨fun x hx => command_tight hx (h.tight x hx) hr, hr.command hc, fun hl => ?_⟩
    have hl : t.lastCall = some .close := hl
    rw [Player.lastCall_congr (hc.log_keep call_moves fun _ _ => rfl)] at hl
    obtain ⟨k, hk, hui', hf⟩ := h.freed hl
    have hck : c :: cs = closeFrom k := hui.symm.trans hui'
    have hlt : k < 19 := by
      by_contra hn
      rw [closeFrom_nil.mpr (not_lt.mp hn)] at hck
      cases hck
    exact ⟨k + 1, hlt, hc.closeFrom hck, hf.command hck⟩
  | @request c hui hq =>
    subst hq
    refine ⟨h.tight, fun d => closedFirst_program d _ c, fun hl => ?_⟩
    have hk : c.kind = .close := Option.some.inj hl
    cases c with
    | close => exact ⟨0, Nat.zero_le _, rfl, fun x hx => absurd hx (Nat.not_lt_zero _)⟩
    | _ => cases hk

theorem inv_reach {ok : Act → Player K × Contexts → Prop} {s : Player K × Contexts} (h : (tracked L).Reach ok s) :
    Inv s.1 s.2 := by
  refine h.inv (I := fun s => Inv s.1 s.2) ?_ fun a s t hI _ hs => hI.step (moves hs)
  rintro ⟨_, _⟩ ⟨⟨total, rfl⟩, rfl⟩
  exact ⟨fun _ _ => rfl, fun _ => rfl, nofun⟩

/-- Except for the resampler context there is at most one object behind each pointer, and `Close` frees it. -/
theorem reached_but_swr {ok : Act → Player K × Contexts → Prop} {s : Player K × Contexts} (h : (tracked L).Reach ok s)
    {x : Ctx} (hx : x ≠ .swr) :
    (s.2.live x).length ≤ 1 ∧ (s.1.lastCall = some .close → s.1.ui = [] → s.2.live x = []) := by
  have hI := inv_reach h
  refine ⟨(hI.tight x hx).length_le, fun hl hui => (hI.tight x hx).nil ?_⟩
  obtain ⟨k, hk, hui', hf⟩ := hI.freed hl
  refine hf x ?_
  have hk' := closeFrom_nil.mp (hui'.symm.trans hui)
  have hx' : x.freedAt < 19 := by
    cases x with
    | swr => exact absurd rfl hx
    | codec d | frame d => cases d <;> decide
    | demux => decide
  omega

/-! ### The pointers of the player -/

/-- The pointers that are not null are the ones of the player. -/
structure Agrees (p : Player K) (m : Contexts) : Prop where
  demux : (m.ptr .demux).isSome = p.demux.ic.isSome
  codec : ∀ d, (m.ptr (.codec d)).isSome = (p.dec d).codec.isSome
  swr : (m.ptr .swr).isSome = p.resample.actx

end Contexts

theorem FFmpeg.onCtx_isSome {α : Type} (a : α) (f : K → α × K) (c : Option (AVCodecContext K)) :
    (onCtx a f c).2.isSome = c.isSome := by
  unfold onCtx
  split <;> rfl

namespace FFDecode
variable (D : FFDecode K)

theorem sendPacket_isSome (x : XData) : (D.sendPacket L x).2.codec.isSome = D.codec.isSome := by
  unfold sendPacket
  split
  · rfl
  · split
    · rfl
    · exact FFmpeg.onCtx_isSome ..

theorem recvFrame_isSome : (D.recvFrame L).2.codec.isSome = D.codec.isSome := by
  have hc : (D.recvFrame L).2.codec = (L.machine.recv D.codec).2 := by
    unfold recvFrame
    rcases L.machine.recv D.codec with ⟨_ | f, c⟩ <;> rfl
  rw [hc]
  exact FFmpeg.onCtx_isSome ..

theorem flush_isSome : (D.flush L).codec.isSome = D.codec.isSome := FFmpeg.onCtx_isSome ..

end FFDecode

namespace FFDemux
variable (d : FFDemux)

theorem read_isSome (h : ℕ) : (d.read h).2.ic.isSome = d.ic.isSome := by
  rcases hic : d.ic with _ | ic
  · simp only [read, hic]
  · rcases hp : ic.packets with _ | ⟨p, ps⟩
    · simp only [read, hic, hp, Option.isSome_some]
    · rw [read_cons hic hp]
      rfl

theorem seek_isSome (pos : ℚ) (f : SeekFrame) : (d.seek pos f).2.ic.isSome = d.ic.isSome := by
  unfold seek
  split
  · rfl
  · rcases hic : d.ic with _ | ic
    · simp only [hic]
    · rfl

end FFDemux

namespace Contexts
open Player (Steps Commands)
variable {p q : Player K} {m : Contexts}

/-- The player keeps the pointers that it has. -/
structure SamePtr (p q : Player K) : Prop where
  demux : q.demux.ic.isSome = p.demux.ic.isSome
  codec : ∀ d, (q.dec d).codec.isSome = (p.dec d).codec.isSome
  resample : q.resample = p.resample

theorem SamePtr.refl (p : Player K) : SamePtr p p := ⟨rfl, fun _ => rfl, rfl⟩

theorem SamePtr.congr {r : Player K} (h : SamePtr p q) (h1 : r.demux = q.demux) (h2 : r.dec = q.dec)
    (h3 : r.resample = q.resample) : SamePtr p r :=
  ⟨by rw [h1, h.demux], fun d => by rw [h2, h.codec], h3.trans h.resample⟩

theorem SamePtr.setDec {d : Dec} {D : FFDecode K} (h : D.codec.isSome = (p.dec d).codec.isSome) :
    SamePtr p (p.setDec d D) := ⟨rfl, fun d' => p.setDec_congr (fun D => D.codec.isSome) h d', rfl⟩

theorem SamePtr.readBy (p : Player K) (w : Holder) : SamePtr p (p.readBy w).2 := by
  rw [Player.readBy_eq]
  exact ⟨FFDemux.read_isSome .., fun _ => rfl, rfl⟩

theorem SamePtr.updates {w : Holder} {u : UpdatePc} {r : Option UpdatePc} (h : Player.Updates w p u q r) :
    SamePtr p q := by
  refine ⟨?_, fun d => by rw [h.dec_fields d], ?_⟩ <;> rw [Player.updates_eq h]

theorem SamePtr.seeks {pos : ℚ} {f : SeekFrame} {pc : SeekPc} {r : Option SeekPc}
    (h : Player.Seeks L pos f p pc q r) : SamePtr p q := by
  cases h with
  | @clear d => exact (SamePtr.setDec (d := d) (D := (p.dec d).clear) rfl).congr rfl rfl rfl
  | flush => exact SamePtr.setDec (FFDecode.flush_isSome _)
  | reposition | rejected => exact ⟨FFDemux.seek_isSome .., fun _ => rfl, rfl⟩
  | nothing | early | wanted | picture => exact SamePtr.readBy p .ui
  | update h => exact SamePtr.updates h
  | done h => exact (SamePtr.updates h).congr rfl rfl rfl
  | @send _ x => exact (SamePtr.setDec ((p.dec .video).sendPacket_isSome (L := L) x)).congr rfl rfl rfl
  | found | before => exact SamePtr.setDec (FFDecode.recvFrame_isSome _)
  | _ => exact (SamePtr.refl p).congr rfl rfl rfl

theorem SamePtr.worker {a : Act} (h : Steps L p a q) (hui : a ≠ .ui) : SamePtr p q := by
  cases h with
  | @demux n t pc h =>
    have hp : SamePtr p t := by
      generalize p.demuxW n = pc₀ at h
      cases h with
      | read | nothing => exact SamePtr.readBy p _
      | update h => exact SamePtr.updates h
      | done h => exact (SamePtr.updates h).congr rfl rfl rfl
      | _ => exact (SamePtr.refl p).congr rfl rfl rfl
    exact hp.congr rfl rfl rfl
  | @dec d n t pc h =>
    have hp : SamePtr p t := by
      generalize p.decW d n = pc₀ at h
      cases h with
      | @pop x rest => exact (SamePtr.setDec (d := d) (D := { p.dec d with packs := rest }) rfl).congr rfl rfl rfl
      | @sent x | @unsent x => exact (SamePtr.setDec ((p.dec d).sendPacket_isSome (L := L) x)).congr rfl rfl rfl
      | drained | recv => exact SamePtr.setDec (FFDecode.recvFrame_isSome _)
      | _ => exact (SamePtr.refl p).congr rfl rfl rfl
    exact hp.congr rfl rfl rfl
  | sync =>
    exact (SamePtr.setDec (d := .video) (D := { p.dec .video with synPts := p.audio.pts }) rfl).congr rfl rfl rfl
  | ui => exact absurd rfl hui
  | _ => exact (SamePtr.refl p).congr rfl rfl rfl

theorem Agrees.same (h : Agrees p m) (hs : SamePtr p q) : Agrees q m :=
  ⟨h.demux.trans hs.demux.symm, fun d => (h.codec d).trans (hs.codec d).symm, h.swr.trans (by rw [hs.resample])⟩

theorem Agrees.recvFrame (h : Agrees p m) (d : Dec) : Agrees p (recvFrame d m) := by
  rcases recvFrame_eq (m := m) d with he | ⟨he, -⟩ <;> rw [he]
  · exact h
  · exact ⟨h.demux, fun e => h.codec e, h.swr⟩

theorem Agrees.openInput (h : Agrees p m) (o : OpenInput) (re : Bool) :
    Agrees { p with demux := (p.demux.openInput o).2, ret := re } (Contexts.openInput o m) := by
  refine ⟨?_, fun d => ?_, ?_⟩
  · cases o with
    | failed => exact congrArg Option.isSome Slots.free_self
    | noInfo ic | opened ic =>
      simp only [Contexts.openInput]
      split
      · exact congrArg Option.isSome Slots.alloc_self
      · exact Option.isSome_iff_ne_none.mpr ‹_›
  · have hp : (Contexts.openInput o m).ptr (.codec d) = m.ptr (.codec d) :=
      command_codec (p := p) (c := .openDemux o) (fun _ he => by cases he) (fun _ _ he => by cases he) d
    rw [hp]
    exact h.codec d
  · have hp : (Contexts.openInput o m).ptr .swr = m.ptr .swr := by
      rcases openInput_eq (m := m) o with he | he | ⟨he, -⟩ <;> rw [he]
      · exact Slots.free_ne nofun
      · exact Slots.alloc_ne nofun
    rw [hp]
    exact h.swr

theorem Agrees.freeDec (h : Agrees p m) (d : Dec) : Agrees (p.setDec d (p.dec d).free) (Contexts.freeDec d m) := by
  have hne : ∀ x : Ctx, x ≠ .codec d → x ≠ .frame d → (Contexts.freeDec d m).ptr x = m.ptr x :=
    fun x h1 h2 => (Slots.free_ne h1).trans (Slots.free_ne h2)
  refine ⟨?_, fun e => ?_, ?_⟩
  · rw [hne .demux nofun nofun]
    exact h.demux
  · by_cases he : e = d
    · subst he
      rw [p.setDec_self]
      exact congrArg Option.isSome Slots.free_self
    · rw [hne (.codec e) (fun hc => he (Ctx.codec.inj hc)) nofun, p.setDec_ne _ he]
      exact h.codec e
  · rw [hne .swr nofun nofun]
    exact h.swr

theorem Agrees.openDec (h : Agrees p m) (d : Dec) (para : XParameter) (o : OpenCodec) :
    Agrees (p.setDec d ((p.dec d).open L para o)) (Contexts.openDec d para o m) := by
  have hsome : ∀ {D : FFDecode K}, D.codec.isSome = true → Agrees (p.setDec d D) (m.alloc (.codec d)) := by
    intro D hD
    refine ⟨h.demux, fun e => ?_, h.swr⟩
    by_cases he : e = d
    · subst he
      rw [p.setDec_self, Slots.alloc_self, hD]
      rfl
    · rw [Slots.alloc_ne fun hc => he (Ctx.codec.inj hc), p.setDec_ne _ he]
      exact h.codec e
  unfold Contexts.openDec FFDecode.open
  rcases para.para with _ | para
  · exact h.same (SamePtr.setDec rfl)
  · cases o with
    | notFound => exact h.same (SamePtr.setDec rfl)
    | failed | opened => exact hsome rfl

theorem Agrees.command {c : Cmd} {cs cs' : List Cmd} (h : Agrees p m) (hc : Commands L cs p c q cs') :
    Agrees q (Contexts.command p m c) := by
  cases hc with
  | @spawn o => cases o <;> exact h.same ((SamePtr.refl p).congr rfl rfl rfl)
  | @clear d => exact h.same ((SamePtr.setDec (d := d) (D := (p.dec d).clear) rfl).congr rfl rfl rfl)
  | flush => exact h.same (SamePtr.setDec (FFDecode.flush_isSome _))
  | free => exact h.freeDec _
  | closeDemux =>
    have hne : ∀ x : Ctx, x ≠ .demux → (m.free .demux).ptr x = m.ptr x := fun x hx => Slots.free_ne hx
    refine ⟨congrArg Option.isSome Slots.free_self, fun d => ?_, ?_⟩
    · exact (congrArg Option.isSome (hne (.codec d) nofun)).trans (h.codec d)
    · exact (congrArg Option.isSome (hne .swr nofun)).trans h.swr
  | opened | openFailed => exact h.openInput _ _
  | videoPara => exact h.same ⟨congrArg Option.isSome (FFDemux.getVideoPara_ic _), fun _ => rfl, rfl⟩
  | audioPara => exact h.same ⟨congrArg Option.isSome (FFDemux.getAudioPara_ic _), fun _ => rfl, rfl⟩
  | openDec => exact h.openDec _ _ _
  | @openResample b para =>
    refine ⟨h.demux, fun d => h.codec d, ?_⟩
    cases b <;> rfl
  | @seek _ _ pc _ _ hs | @sought _ _ pc _ hs =>
    have hq := h.same (SamePtr.seeks hs)
    cases pc with
    | recv => exact hq.recvFrame .video
    | _ => exact hq
  | _ => exact h.same ((SamePtr.refl p).congr rfl rfl rfl)

/-- In every run the pointers that are not null are those of the player. -/
theorem agrees_reach {ok : Act → Player K × Contexts → Prop} {s : Player K × Contexts} (h : (tracked L).Reach ok s) :
    Agrees s.1 s.2 := by
  refine h.inv (I := fun s => Agrees s.1 s.2) ?_ fun a s t hI _ hs => ?_
  · rintro ⟨_, _⟩ ⟨⟨total, rfl⟩, rfl⟩
    exact ⟨rfl, fun _ => rfl, rfl⟩
  · have hm := moves hs
    generalize t.1 = q, t.2 = m' at hm
    cases hm with
    | keep hui _ hst => exact hI.same (SamePtr.worker hst hui)
    | recv _ hst => exact (hI.recvFrame _).same (SamePtr.worker hst fun ha => by cases ha)
    | command hui hc hq =>
      subst hq
      exact (hI.command hc).same ((SamePtr.refl _).congr rfl rfl rfl)
    | request hui hq =>
      subst hq
      exact hI.same ((SamePtr.refl _).congr rfl rfl rfl)

/-! ### The resampler context -/

/-- `Open` calls `resample->Open`. -/
def resamples (a : Act) (s : Player K × Contexts) : Bool :=
  match a, s.1.ui with
  | .ui, .openResample _ :: _ => true
  | _, _ => false

def NoResample (a : Act) (s : Player K × Contexts) : Prop := resamples a s = false

instance (a : Act) (s : Player K × Contexts) : Decidable (NoResample a s) := inferInstanceAs (Decidable (_ = _))

theorem recvFrame_swr (d : Dec) : (recvFrame d m).live .swr = m.live .swr := by
  rcases recvFrame_eq (m := m) d with h | ⟨h, -⟩ <;> rw [h]
  exact Slots.alloc_live_ne nofun

theorem command_swr {c : Cmd} (hc : ∀ b, c ≠ .openResample b) : (command p m c).live .swr = m.live .swr := by
  cases c with
  | free e => exact (Slots.free_live_ne fun h => by cases h).trans (Slots.free_live_ne fun h => by cases h)
  | closeDemux => exact Slots.free_live_ne nofun
  | openDemux o =>
    simp only [command]
    rcases openInput_eq (m := m) o with h | h | ⟨h, -⟩ <;> rw [h]
    · exact Slots.free_live_ne nofun
    · exact Slots.alloc_live_ne nofun
  | openDec e o =>
    simp only [command]
    rcases openDec_eq (m := m) e (if e = .video then p.demux.getVideoPara.1 else p.demux.getAudioPara.1) o with
      ho | ho <;> rw [ho]
    exact Slots.alloc_live_ne nofun
  | openResample b => exact absurd rfl (hc b)
  | seek pos f pc =>
    cases pc with
    | recv => exact recvFrame_swr .video
    | _ => rfl
  | _ => rfl

/-- Only `resample->Open` changes the live resampler contexts, and it adds one. -/
theorem swr_step {a : Act} {s t : Player K × Contexts} (h : (tracked L).step a s = some t) :
    t.2.live .swr = if resamples a s then s.2.fresh :: s.2.live .swr else s.2.live .swr := by
  have hm := moves h
  obtain ⟨p, m⟩ := s
  generalize t.2 = m' at hm ⊢
  simp only at hm
  cases hm with
  | keep hui =>
    cases a with
    | ui => exact absurd rfl hui
    | _ => rfl
  | recv => exact recvFrame_swr _
  | @command c cs _ _ hui =>
    simp only [resamples, hui]
    split
    · rename_i hc
      cases hc
      exact Slots.alloc_live_self
    · rename_i hc
      exact command_swr fun b hb => hc b cs rfl (by rw [hb])
  | request => rfl

end Contexts

open Contexts in
/-- From the first call of `resample->Open` on, there is a live resampler context. -/
theorem resampler_kept {ok : Act → Player K × Contexts → Prop} {a : Act} {s t u : Player K × Contexts}
    (ha : resamples a s = true) (hs : (tracked L).step a s = some t) (h : (tracked L).Run ok t u) :
    u.2.live .swr ≠ [] := by
  refine h.inv (I := fun u => u.2.live .swr ≠ []) ?_ fun b u v hI _ hu => ?_
  · rw [swr_step hs, if_pos ha]
    exact List.cons_ne_nil _ _
  · rw [swr_step hu]
    split
    · exact List.cons_ne_nil _ _
    · exact hI

open Contexts in
/-- In every run in which no `Open` calls `resample->Open` there is at most one object behind each pointer, and none
when the last call was `Close` and it has returned. -/
theorem contexts_given_back (L : FFmpeg K) {s : Player K × Contexts} (h : (tracked L).Reach NoResample s) :
    (∀ x, (s.2.live x).length ≤ 1) ∧ (s.1.lastCall = some .close → s.1.ui = [] → ∀ x, s.2.live x = []) := by
  have hswr : s.2.live .swr = [] := by
    refine h.inv (I := fun s => s.2.live .swr = []) ?_ fun a s t hI ha hs => ?_
    · rintro ⟨_, _⟩ ⟨-, rfl⟩
      rfl
    · rw [swr_step hs, if_neg (ne_true_of_eq_false ha)]
      exact hI
  have hx : ∀ x, (s.2.live x).length ≤ 1 ∧ (s.1.lastCall = some .close → s.1.ui = [] → s.2.live x = []) := by
    intro x
    by_cases hx : x = .swr
    · subst hx
      rw [hswr]
      exact ⟨Nat.zero_le _, fun _ _ => rfl⟩
    · exact reached_but_swr h hx
  exact ⟨fun x => (hx x).1, fun hl hui x => (hx x).2 hl hui⟩

/-- `Open` of a file without stream information, and `Close`. -/
def openNoInfo : List Act :=
  .request (.open (.noInfo ⟨avFile, []⟩) .opened .opened true) :: List.replicate 23 .ui ++
    .request .close :: List.replicate 19 .ui

theorem contexts_given_back_noInfo : ∃ s : Player Unit × Contexts, s.2.fresh = 1 ∧ ∀ x, s.2.live x = [] := by
  have hr : ((tracked silent).execIf Contexts.NoResample openNoInfo ({ demux := { total := 0 } }, {})).map
      (fun s => (s.1.lastCall, s.1.ui.isEmpty, s.2.fresh)) = some (some .close, true, 1) := by decide +kernel
  obtain ⟨s, hs, he⟩ := Option.map_eq_some_iff.mp hr
  simp only [Prod.mk.injEq, List.isEmpty_iff] at he
  exact ⟨s, he.2.2, (contexts_given_back silent ⟨_, ⟨⟨0, rfl⟩, rfl⟩, .of_execIf hs⟩).2 he.1 he.2.1⟩

/-- `Open` of a file with an audio stream, and `Close`: the resampler context is never freed. -/
theorem contexts_not_given_back : ¬ ∀ s : Player Unit × Contexts, (tracked silent).Reach Sys.any s →
    (∀ x, (s.2.live x).length ≤ 1) ∧ (s.1.lastCall = some .close → s.1.ui = [] → ∀ x, s.2.live x = []) := by
  intro h
  have hr : ((tracked silent).exec (.request (.open (.opened ⟨avFile, []⟩) .opened .opened true) ::
      List.replicate 32 .ui ++ .request .close :: List.replicate 19 .ui) ({ demux := { total := 0 } }, {})).map
      (fun s => (s.1.lastCall, s.1.ui.isEmpty, s.2.live .swr)) = some (some .close, true, [3]) := by decide +kernel
  obtain ⟨s, hs, he⟩ := Option.map_eq_some_iff.mp hr
  simp only [Prod.mk.injEq, List.isEmpty_iff] at he
  have hn := (h s ⟨_, ⟨⟨0, rfl⟩, rfl⟩, .of_exec_any hs⟩).2 he.1 he.2.1 .swr
  rw [he.2.2] at hn
  cases hn

end XPlayer
