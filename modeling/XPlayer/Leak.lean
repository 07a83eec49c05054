import XPlayer.Owner
import XPlayer.CloseClears

/-!
# Buffers that are never released

Every packet that `Read` has returned is somewhere (with a thread, in a queue or with a decoder) until it is
dropped, and every buffer of `Resample` until `PlayCall` or `Clear` releases it: `Accounted`. This holds as
long as none of the paths is taken that forget one: an `XData` with a packet but without a size, a packet
that both decoders reject, and an `Update` that leaves its wait because `isExit` is set (`Kept`).

After `Close` the queues stay empty under `NothingStored`, so once all threads have ended nothing is left
(`no_leak`).
-/

namespace XPlayer
variable {K : Type} {L : FFmpeg K}

/-! ### Where a buffer is -/

/-- The packet that `Notify` has still to pass to the decoder of its kind. -/
def UpdatePc.pending : UpdatePc → List XData
  | .enter .video x | .exitTest .video x | .section .video x => [x]
  | .enter .audio x | .exitTest .audio x | .section .audio x => if x.isAudio then [x] else []

def DemuxPc.pending : DemuxPc → List XData
  | .notify x => [x]
  | .update u => u.pending
  | _ => []

def SeekPc.pending : SeekPc → List XData
  | .skip _ x | .notify _ x | .send _ x | .drop _ x => [x]
  | .update _ u => u.pending
  | _ => []

def Cmd.pending : Cmd → List XData
  | .seek _ _ pc => pc.pending
  | _ => []

/-- The buffer of a worker in `IAudioPlay::Update`. -/
def DecPc.pcm : DecPc → List XData
  | .pcmExit _ y | .pcmSection _ y => [y]
  | _ => []

/-- The buffer that an event allocates. -/
def Event.buffer : Event → Option XData
  | .resampled y => some y
  | _ => none

/-- The buffer of `PlayCall`. -/
def CallPc.pcm : CallPc → List XData
  | .got y | .copy y | .enqueue y | .drop y => [y]
  | _ => []

namespace Player
variable {s s' t : Player K}

/-- The packet `x` is with a thread or in a queue. -/
def Somewhere (s : Player K) (x : XData) : Prop :=
  (∃ n, x ∈ (s.demuxW n).pending) ∨ (∃ c ∈ s.ui.head?, x ∈ c.pending) ∨ (∃ d, x ∈ (s.dec d).packs) ∨
    ∃ d n, x ∈ (s.decW d n).owned

/-- The buffer `y` is with a worker, in the queue or with `PlayCall`. -/
def HoldsPcm (s : Player K) (y : XData) : Prop :=
  (∃ d n, y ∈ (s.decW d n).pcm) ∨ y ∈ s.audio.frames ∨ ∃ pc, s.call = some pc ∧ y ∈ pc.pcm

/-- Every packet that was read is dropped or somewhere, and so is every buffer that was resampled. -/
structure Accounted (s : Player K) : Prop where
  video : (s.dec .video).isAudio = false
  packets : ∀ w x, .read w x ∈ s.log → (∃ w', .drop w' x ∈ s.log) ∨ s.Somewhere x
  pcm : ∀ y, .resampled y ∈ s.log → .dropPcm y ∈ s.log ∨ s.HoldsPcm y
  size : ∀ y, s.HoldsPcm y → 0 < y.size

end Player

/-! ### The condition -/

/-- What `Read` returned is a packet with a size, if it is a packet. -/
def Sized (x : XData) : Prop := x.data ≠ .null → 0 < x.size

instance (x : XData) : Decidable (Sized x) := inferInstanceAs (Decidable (_ → _))

/-- `aDecode` knows its kind when an audio packet is offered to it, and the decoder of a packet is not
exiting when it is offered there. -/
def UpdatePc.Taken (u : UpdatePc) (s : Player K) : Prop :=
  match u with
  | .enter .audio x => x.isAudio = true → (s.dec .audio).isAudio = true
  | .exitTest .video _ => s.isExit (.dec .video) = false
  | .exitTest .audio x => x.isAudio = true → s.isExit (.dec .audio) = false
  | _ => True

instance (u : UpdatePc) (s : Player K) : Decidable (u.Taken s) := by
  unfold UpdatePc.Taken
  split <;> infer_instance

/-- The condition on the steps of a run: what `Read` returns is no packet of size zero, `Update` neither
rejects a packet of its own kind nor ends because of `isExit`. -/
def Kept (a : Act) (s : Player K) : Prop :=
  match a with
  | .demux n =>
    match s.demuxW n with
    | .read => Sized (s.readBy (.demux n)).1
    | .update u => u.Taken s
    | _ => True
  | .dec d n =>
    match s.decW d n with
    | .pcmExit _ _ => s.isExit .audioPlay = false
    | _ => True
  | .ui =>
    match s.ui with
    | .seek _ _ (.read _) :: _ => Sized (s.readBy .ui).1
    | .seek _ _ (.update _ u) :: _ => u.Taken s
    | _ => True
  | _ => True

instance (a : Act) (s : Player K) : Decidable (Kept a s) := by
  unfold Kept
  split
  · split <;> infer_instance
  · split <;> infer_instance
  · split <;> infer_instance
  · infer_instance

/-! ### Each thread keeps account of its packets -/

namespace Player
variable {s s' t : Player K}

theorem Updates.keeps {w : Holder} {u : UpdatePc} {r : Option UpdatePc} (h : Updates w s u t r)
    (hv : (s.dec .video).isAudio = false) (hu : u.Taken s) :
    (∀ x ∈ u.pending, (∃ u', r = some u' ∧ x ∈ u'.pending) ∨ ∃ d, x ∈ (t.dec d).packs) ∧
      (∀ d, ∀ x ∈ (s.dec d).packs, x ∈ (t.dec d).packs) ∧ (∀ e ∈ s.log, e ∈ t.log) ∧
        ∀ w x, .read w x ∈ t.log → .read w x ∈ s.log := by
  cases h with
  | @skip d x h =>
    refine ⟨fun y hy => .inl ?_, fun _ _ => id, fun _ => id, fun _ _ => id⟩
    cases d with
    | video =>
      have hx : x.isAudio = true := by simpa [hv] using h
      exact ⟨_, rfl, by simpa [UpdatePc.pending, hx] using hy⟩
    | audio =>
      simp only [UpdatePc.pending] at hy
      split at hy
      · rename_i hx
        exact absurd (hx.trans (hu hx).symm) h
      · cases hy
  | @accept d x h =>
    refine ⟨fun y hy => .inl ⟨_, rfl, ?_⟩, fun _ _ => id, fun _ => id, fun _ _ => id⟩
    cases d <;> exact hy
  | @lost d x h =>
    refine ⟨fun y hy => ?_, fun _ _ => id, fun _ => id, fun _ _ => id⟩
    cases d with
    | video =>
      have hu : s.isExit (.dec .video) = false := hu
      rw [h] at hu
      cases hu
    | audio =>
      simp only [UpdatePc.pending] at hy
      split at hy
      · rename_i hx
        have hu := hu hx
        rw [h] at hu
        cases hu
      · cases hy
  | @go d x h =>
    refine ⟨fun y hy => .inl ⟨_, rfl, ?_⟩, fun _ _ => id, fun _ => id, fun _ _ => id⟩
    cases d <;> exact hy
  | @push d x hm h =>
    have hp : ∀ d', ((s.pushed w d x).dec d').packs =
        if d' = d then (s.dec d).packs ++ [x] else (s.dec d').packs := by
      intro d'
      by_cases hd : d' = d
      · subst hd
        simp [pushed, emit, setDec]
      · simp [pushed, emit, setDec, hd]
    refine ⟨fun y hy => .inr ⟨d, ?_⟩, fun d' y hy => ?_, fun _ => List.mem_cons_of_mem _, fun w' y hy => ?_⟩
    · rw [hp, if_pos rfl]
      have hy : y = x := by
        cases d with
        | video => simpa [UpdatePc.pending] using hy
        | audio =>
          simp only [UpdatePc.pending] at hy
          split at hy
          · simpa using hy
          · cases hy
      simp [hy]
    · rw [hp]
      split
      · rename_i hd
        subst hd
        exact List.mem_append_left _ hy
      · exact hy
    · rcases List.mem_cons.mp hy with hy | hy
      · cases hy
      · exact hy
  | @full d x hm h =>
    refine ⟨fun y hy => .inl ⟨_, rfl, ?_⟩, fun _ _ => id, fun _ => id, fun _ _ => id⟩
    cases d <;> exact hy

/-- A new packet is the one returned. -/
theorem readBy_keeps (w : Holder) : (∀ e ∈ s.log, e ∈ (s.readBy w).2.log) ∧
    ∀ w' x, .read w' x ∈ (s.readBy w).2.log →
      .read w' x ∈ s.log ∨ x = (s.readBy w).1 ∧ (s.readBy w).1.data ≠ .null := by
  have hr : (s.readBy w).1 = (s.demux.read s.fresh).1 := rfl
  rw [readBy_eq, hr]
  split
  · exact ⟨fun _ => id, fun _ _ h => .inl h⟩
  · rename_i hd
    refine ⟨fun _ => List.mem_cons_of_mem _, fun w' x hx => ?_⟩
    rcases List.mem_cons.mp hx with hx | hx
    · cases hx
      exact .inr ⟨rfl, hd⟩
    · exact .inl hx

theorem Demuxes.keeps {n : ℕ} {pc pc' : DemuxPc} (h : Demuxes n s pc t pc') (hpc : s.demuxW n = pc)
    (hv : (s.dec .video).isAudio = false) (ha : Kept (.demux n) s) :
    (∀ x ∈ pc.pending, x ∈ pc'.pending ∨ ∃ d, x ∈ (t.dec d).packs) ∧
      (∀ d, ∀ x ∈ (s.dec d).packs, x ∈ (t.dec d).packs) ∧ (∀ e ∈ s.log, e ∈ t.log) ∧
        ∀ w x, .read w x ∈ t.log → .read w x ∈ s.log ∨ x ∈ pc'.pending := by
  have hr : pc = .read → Sized (s.readBy (.demux n)).1 := by
    rintro rfl
    simpa only [Kept, hpc] using ha
  have hu : ∀ u, pc = .update u → u.Taken s := by
    rintro u rfl
    simpa only [Kept, hpc] using ha
  cases h with
  | read hx =>
    refine ⟨fun x hx => absurd hx List.not_mem_nil, fun d x hx => ?_, (readBy_keeps _).1, fun w x hx => ?_⟩
    · rw [readBy_eq]
      exact hx
    · rcases (readBy_keeps _).2 w x hx with hx | ⟨rfl, -⟩
      · exact .inl hx
      · exact .inr (List.mem_singleton.mpr rfl)
  | nothing hx =>
    refine ⟨fun x hx => absurd hx List.not_mem_nil, fun d x hx => ?_, (readBy_keeps _).1, fun w x hx' => ?_⟩
    · rw [readBy_eq]
      exact hx
    · rcases (readBy_keeps _).2 w x hx' with hx' | ⟨rfl, hd⟩
      · exact .inl hx'
      · exact absurd (hr rfl hd) (not_lt.mpr hx)
  | notify => exact ⟨fun x hx => .inl hx, fun _ _ => id, fun _ => id, fun _ _ => .inl⟩
  | update h =>
    obtain ⟨h1, h2, h3, h4⟩ := h.keeps hv (hu _ rfl)
    refine ⟨fun x hx => ?_, h2, h3, fun w x hx => .inl (h4 w x hx)⟩
    rcases h1 x hx with ⟨u', he, hx⟩ | hx
    · cases he
      exact .inl hx
    · exact .inr hx
  | done h =>
    obtain ⟨h1, h2, h3, h4⟩ := h.keeps hv (hu _ rfl)
    refine ⟨fun x hx => ?_, h2, h3, fun w x hx => .inl (h4 w x hx)⟩
    rcases h1 x hx with ⟨u', he, -⟩ | hx
    · cases he
    · exact .inr hx
  | _ => exact ⟨fun x hx => absurd hx List.not_mem_nil, fun _ _ => id, fun _ => id, fun _ _ => .inl⟩

theorem Decodes.keeps {n : ℕ} {d : Dec} {pc pc' : DecPc} (h : Decodes L d n s pc t pc') :
    (∀ x ∈ pc.owned, x ∈ pc'.owned ∨ ∃ w, .drop w x ∈ t.log) ∧
      (∀ d', ∀ x ∈ (s.dec d').packs, x ∈ (t.dec d').packs ∨ x ∈ pc'.owned) ∧ (∀ e ∈ s.log, e ∈ t.log) ∧
        ∀ w x, .read w x ∈ t.log → .read w x ∈ s.log := by
  have hlog : ∀ {e : Event}, (∀ w x, e ≠ .read w x) → (∀ e' ∈ s.log, e' ∈ e :: s.log) ∧
      ∀ w x, .read w x ∈ e :: s.log → .read w x ∈ s.log := by
    intro e he
    refine ⟨fun _ => List.mem_cons_of_mem _, fun w x hx => ?_⟩
    rcases List.mem_cons.mp hx with hx | hx
    · exact absurd hx.symm (he w x)
    · exact hx
  have hset : ∀ {D : FFDecode K}, D.packs = (s.dec d).packs → ∀ d', ∀ x ∈ (s.dec d').packs,
      x ∈ ((s.setDec d D).dec d').packs := by
    intro D hD d' x hx
    by_cases hd : d' = d
    · subst hd
      simpa [setDec, hD] using hx
    · simpa [setDec, hd] using hx
  cases h with
  | @pop x rest hm hg hp =>
    obtain ⟨h1, h2⟩ := hlog (e := .pop d n x) fun _ _ he => by cases he
    refine ⟨fun x hx => absurd hx List.not_mem_nil, fun d' y hy => ?_, h1, h2⟩
    by_cases hd : d' = d
    · subst hd
      rw [hp] at hy
      rcases List.mem_cons.mp hy with rfl | hy
      · exact .inr (List.mem_singleton.mpr rfl)
      · exact .inl (by simpa [popped, setDec, setPacks, emit] using hy)
    · exact .inl (by simpa [popped, setDec, setPacks, emit, hd] using hy)
  | @sent x | @unsent x =>
    obtain ⟨h1, h2⟩ := hlog (e := .send (.decoder d n) x) fun _ _ he => by cases he
    exact ⟨fun y hy => .inl hy, fun d' y hy => .inl (hset (sendPacket_packs _ _) d' y hy), h1, h2⟩
  | drained | recv =>
    exact ⟨fun y hy => .inl hy, fun d' y hy => .inl (hset (recvFrame_packs _) d' y hy), fun _ => id, fun _ _ => id⟩
  | @«show» x f | @notify x f =>
    obtain ⟨h1, h2⟩ := hlog (e := .notify d f) fun _ _ he => by cases he
    exact ⟨fun y hy => .inl hy, fun _ _ => .inl, h1, h2⟩
  | @pcm x f y =>
    obtain ⟨h1, h2⟩ := hlog (e := .resampled y) fun _ _ he => by cases he
    exact ⟨fun y hy => .inl hy, fun _ _ => .inl, h1, h2⟩
  | @pcmPush x y =>
    obtain ⟨h1, h2⟩ := hlog (e := .queued y) fun _ _ he => by cases he
    exact ⟨fun y hy => .inl hy, fun _ _ => .inl, h1, h2⟩
  | @drop x =>
    obtain ⟨h1, h2⟩ := hlog (e := .drop (.decoder d n) x) fun _ _ he => by cases he
    refine ⟨fun y hy => .inr ⟨.decoder d n, ?_⟩, fun _ _ => .inl, h1, h2⟩
    obtain rfl := List.mem_singleton.mp hy
    exact List.mem_cons_self ..
  | exit | more | paused | run | shut | empty =>
    exact ⟨fun x hx => absurd hx List.not_mem_nil, fun _ _ => .inl, fun _ => id, fun _ _ => id⟩
  | _ => exact ⟨fun y hy => .inl hy, fun _ _ => .inl, fun _ => id, fun _ _ => id⟩

/-- `Clear` drops all packets of the queue. -/
theorem emptied_keeps (d : Dec) : (∀ d', ∀ x ∈ (s.dec d').packs,
    x ∈ ((s.emptied d).dec d').packs ∨ ∃ w, .drop w x ∈ (s.emptied d).log) ∧
      (∀ e ∈ s.log, e ∈ (s.emptied d).log) ∧ ∀ w x, .read w x ∈ (s.emptied d).log → .read w x ∈ s.log := by
  refine ⟨fun d' x hx => ?_, fun e he => List.mem_append_right _ he, fun w x hx => ?_⟩
  · by_cases hd : d' = d
    · subst hd
      refine .inr ⟨.queue d', List.mem_append_left _ ?_⟩
      rw [List.mem_reverse]
      exact List.mem_map.mpr ⟨x, hx, rfl⟩
    · exact .inl (by simpa [emptied, setDec, hd] using hx)
  · rcases List.mem_append.mp hx with hx | hx
    · rw [List.mem_reverse, List.mem_map] at hx
      obtain ⟨y, -, hy⟩ := hx
      cases hy
    · exact hx

theorem mem_setDec_packs {d : Dec} {D : FFDecode K} (hD : D.packs = (s.dec d).packs) (d' : Dec) (x : XData)
    (hx : x ∈ (s.dec d').packs) : x ∈ ((s.setDec d D).dec d').packs := by
  by_cases hd : d' = d
  · subst hd
    simpa [setDec, hD] using hx
  · simpa [setDec, hd] using hx

theorem mem_log_cons {e : Event} (he : ∀ w x, e ≠ .read w x) :
    (∀ e' ∈ s.log, e' ∈ (s.emit e).log) ∧ ∀ w x, .read w x ∈ (s.emit e).log → .read w x ∈ s.log := by
  refine ⟨fun _ => List.mem_cons_of_mem _, fun w x hx => ?_⟩
  rcases List.mem_cons.mp hx with hx | hx
  · exact absurd hx.symm (he w x)
  · exact hx

theorem clearFrames_keeps : (∀ e ∈ s.log, e ∈ s.clearFrames.log) ∧
    ∀ w x, .read w x ∈ s.clearFrames.log → .read w x ∈ s.log := by
  refine ⟨fun e he => List.mem_append_right _ he, fun w x hx => ?_⟩
  rcases List.mem_append.mp hx with hx | hx
  · rw [List.mem_reverse, List.mem_map] at hx
    obtain ⟨y, -, hy⟩ := hx
    cases hy
  · exact hx

/-- What a step of the controller does to the packets. -/
structure UiKeeps (s t : Player K) (before : List XData) (after : List XData) : Prop where
  held : ∀ x ∈ before, x ∈ after ∨ (∃ d, x ∈ (t.dec d).packs) ∨ ∃ w, .drop w x ∈ t.log
  queues : ∀ d, ∀ x ∈ (s.dec d).packs, x ∈ (t.dec d).packs ∨ ∃ w, .drop w x ∈ t.log
  log : ∀ e ∈ s.log, e ∈ t.log
  read : ∀ w x, .read w x ∈ t.log → .read w x ∈ s.log ∨ x ∈ after

theorem UiKeeps.quiet {before after : List XData} (hd : ∀ d, ∀ x ∈ (s.dec d).packs, x ∈ (t.dec d).packs)
    (hl : t.log = s.log) (hb : ∀ x ∈ before, x ∈ after) : UiKeeps s t before after := by
  refine ⟨fun x hx => .inl (hb x hx), fun d x hx => .inl (hd d x hx), ?_, ?_⟩ <;> rw [hl]
  · exact fun _ => id
  · exact fun _ _ => .inl

/-- The queue of `d` is emptied, and `e` reports it. -/
theorem UiKeeps.emptied (d : Dec) {e : Event} {after : List XData} (he : ∀ w x, e ≠ .read w x) :
    UiKeeps s ((s.emptied d).emit e) [] after := by
  obtain ⟨h1, h2, h3⟩ := emptied_keeps (s := s) d
  obtain ⟨h4, h5⟩ := mem_log_cons (s := s.emptied d) he
  refine ⟨fun x hx => absurd hx List.not_mem_nil, fun d' x hx => ?_, fun e he => h4 e (h2 e he),
    fun w x hx => .inl (h3 w x (h5 w x hx))⟩
  rcases h1 d' x hx with hx | ⟨w, hw⟩
  · exact .inl hx
  · exact .inr ⟨w, h4 _ hw⟩

theorem Seeks.keeps {pos : ℚ} {f : SeekFrame} {pc : SeekPc} {r : Option SeekPc} (h : Seeks L pos f s pc t r)
    (hv : (s.dec .video).isAudio = false) (hr : ∀ T, pc = .read T → Sized (s.readBy .ui).1)
    (hu : ∀ T u, pc = .update T u → u.Taken s) :
    UiKeeps s t pc.pending ((r.map SeekPc.pending).getD []) := by
  have hread : ∀ {r : SeekPc}, (∃ T, pc = .read T) →
      ((s.readBy .ui).1.data ≠ .null → (s.readBy .ui).1 ∈ r.pending) →
      UiKeeps s (s.readBy .ui).2 pc.pending r.pending := by
    rintro r ⟨T, rfl⟩ hr
    refine ⟨fun x hx => absurd hx List.not_mem_nil, fun d x hx => .inl ?_, (readBy_keeps _).1, fun w x hx => ?_⟩
    · rw [readBy_eq]
      exact hx
    · rcases (readBy_keeps _).2 w x hx with hx | ⟨rfl, hd⟩
      · exact .inl hx
      · exact .inr (hr hd)
  have hdrop : ∀ {x : XData}, pc.pending = [x] → UiKeeps s (s.emit (.drop .ui x)) pc.pending [] := by
    intro x hx
    obtain ⟨h1, h2⟩ := mem_log_cons (s := s) (e := .drop .ui x) fun _ _ he => by cases he
    refine ⟨fun y hy => .inr (.inr ⟨.ui, ?_⟩), fun _ _ => .inl, h1, fun w y hy => .inl (h2 w y hy)⟩
    rw [hx, List.mem_singleton] at hy
    exact List.mem_cons.mpr (.inl (by rw [hy]))
  have hnot : ∀ {u : UpdatePc} {t' : Player K} {r' : Option UpdatePc} (after : List XData),
      Updates .ui s u t' r' → u.Taken s → (∀ u' ∈ r', ∀ x ∈ u'.pending, x ∈ after) →
      UiKeeps s t' u.pending after := by
    intro u t' r' after h hu ha
    obtain ⟨h1, h2, h3, h4⟩ := h.keeps hv hu
    refine ⟨fun x hx => ?_, fun d x hx => .inl (h2 d x hx), h3, fun w x hx => .inl (h4 w x hx)⟩
    rcases h1 x hx with ⟨u', he, hx⟩ | hx
    · exact .inl (ha u' he x hx)
    · exact .inr (.inl hx)
  cases h with
  | @clear d => exact .emptied d (e := .flushed d) fun _ _ he => by cases he
  | flush => exact .quiet (mem_setDec_packs rfl) rfl fun x hx => absurd hx List.not_mem_nil
  | clearFrames =>
    exact ⟨fun x hx => absurd hx List.not_mem_nil, fun _ _ => .inl, clearFrames_keeps.1,
      fun w x hx => .inl (clearFrames_keeps.2 w x hx)⟩
  | reposition =>
    obtain ⟨h1, h2⟩ := mem_log_cons (s := s.moved pos f) (e := .reposition) fun _ _ he => by cases he
    exact ⟨fun x hx => absurd hx List.not_mem_nil, fun _ _ => .inl, h1, fun w x hx => .inl (h2 w x hx)⟩
  | nothing hx => exact hread (r := .unlock) ⟨_, rfl⟩ fun hd => absurd (hr _ rfl hd) (not_lt.mpr hx)
  | @early T hx ha hp =>
    exact hread (r := .skip T _) ⟨_, rfl⟩ fun _ => List.mem_singleton.mpr rfl
  | @wanted T hx ha hp => exact hread (r := .notify T _) ⟨_, rfl⟩ fun _ => List.mem_singleton.mpr rfl
  | @picture T hx ha => exact hread (r := .send T _) ⟨_, rfl⟩ fun _ => List.mem_singleton.mpr rfl
  | skip | drop => exact hdrop rfl
  | notify => exact .quiet (fun _ _ => id) rfl fun _ => id
  | update h => exact hnot _ h (hu _ _ rfl) fun u' hu' x hx => by cases hu'; exact hx
  | @done T u t' h =>
    have hk := hnot [] h (hu _ _ rfl) fun u' hu' => by cases hu'
    exact ⟨hk.held, hk.queues, hk.log, hk.read⟩
  | @send T x =>
    obtain ⟨h1, h2⟩ := mem_log_cons (s := s.setDec .video ((s.dec .video).sendPacket L x).2) (e := .send .ui x)
      fun _ _ he => by cases he
    exact ⟨fun x hx => .inl hx, fun d x hx => .inl (mem_setDec_packs (sendPacket_packs _ _) d x hx), h1,
      fun w x hx => .inl (h2 w x hx)⟩
  | found | before => exact .quiet (mem_setDec_packs (recvFrame_packs _)) rfl fun x hx => absurd hx List.not_mem_nil
  | _ => exact .quiet (fun _ _ => id) rfl fun x hx => absurd hx List.not_mem_nil

theorem openDec_packs (D : FFDecode K) (para : XParameter) (o : OpenCodec) :
    (D.open L para o).packs = D.packs := by
  unfold FFDecode.open
  split <;> rfl

theorem Commands.keeps {c : Cmd} {cs cs' : List Cmd} (h : Commands L cs s c t cs') (hui : s.ui = c :: cs)
    (hv : (s.dec .video).isAudio = false) (ha : Kept .ui s) :
    UiKeeps s t c.pending ((cs'.head?.map Cmd.pending).getD []) := by
  have hnil : ∀ {l : List XData}, ∀ x ∈ ([] : List XData), x ∈ l := fun x hx => absurd hx List.not_mem_nil
  have hr : ∀ pos f T, c = .seek pos f (.read T) → Sized (s.readBy .ui).1 := by
    rintro pos f T rfl
    simpa only [Kept, hui] using ha
  have hu : ∀ pos f T u, c = .seek pos f (.update T u) → u.Taken s := by
    rintro pos f T u rfl
    simpa only [Kept, hui] using ha
  cases h with
  | @clear d => exact .emptied d (e := .cleared d) fun _ _ he => by cases he
  | clearFrames =>
    exact ⟨fun x hx => absurd hx List.not_mem_nil, fun _ _ => .inl, clearFrames_keeps.1,
      fun w x hx => .inl (clearFrames_keeps.2 w x hx)⟩
  | flush => exact .quiet (mem_setDec_packs rfl) rfl hnil
  | free => exact .quiet (mem_setDec_packs rfl) rfl hnil
  | openDec => exact .quiet (mem_setDec_packs (openDec_packs _ _ _)) rfl hnil
  | @spawn o => cases o <;> exact .quiet (fun _ _ => id) rfl hnil
  | seek h => exact h.keeps hv (fun T hT => hr _ _ T (by rw [hT])) fun T u hT => hu _ _ T u (by rw [hT])
  | @sought pos f pc t h =>
    cases h
    exact .quiet (fun _ _ => id) rfl hnil
  | @ret k =>
    obtain ⟨h1, h2⟩ := mem_log_cons (s := s) (e := .returned k s.ret) fun _ _ he => by cases he
    exact ⟨fun x hx => absurd hx List.not_mem_nil, fun _ _ => .inl, h1, fun w x hx => .inl (h2 w x hx)⟩
  | _ => exact .quiet (fun _ _ => id) rfl hnil

/-! ### The buffers of `Resample` -/

theorem HoldsPcm.of_eq (hW : t.decW = s.decW) (hA : t.audio.frames = s.audio.frames) (hC : t.call = s.call)
    {y : XData} : t.HoldsPcm y ↔ s.HoldsPcm y := by
  unfold HoldsPcm
  rw [hW, hA, hC]

theorem clearFrames_pcm {y : XData} (h : s.HoldsPcm y) :
    s.clearFrames.HoldsPcm y ∨ .dropPcm y ∈ s.clearFrames.log := by
  rcases h with h | h | h
  · exact .inl (.inl h)
  · refine .inr (List.mem_append_left _ ?_)
    rw [List.mem_reverse]
    exact List.mem_map.mpr ⟨y, h, rfl⟩
  · exact .inl (.inr (.inr h))

theorem Seeks.audio_eq {pos : ℚ} {f : SeekFrame} {pc : SeekPc} {r : Option SeekPc} (h : Seeks L pos f s pc t r) :
    t.audio = s.audio ∨ t = s.clearFrames := by
  cases h with
  | clearFrames => exact .inr rfl
  | nothing | early | wanted | picture => exact .inl (by rw [readBy_eq])
  | update hu => exact .inl (by rw [updates_eq hu])
  | done hu => exact .inl (by rw [updates_eq hu])
  | _ => exact .inl rfl

theorem spawn_decW (hH : Holds s) (o : Obj) (d : Dec) (n : ℕ) :
    (s.spawn o).decW d n = s.decW d n ∨ s.decW d n = .gone ∧ (s.spawn o).decW d n = .exitTest := by
  cases o with
  | dec d' =>
    show (s.setDecW d' (s.decN d') .exitTest).decW d n = _ ∨ _ ∧ (s.setDecW d' (s.decN d') .exitTest).decW d n = _
    rw [setDecW_decW]
    split
    · rename_i he
      obtain ⟨rfl, rfl⟩ := he
      exact .inr ⟨hH.gone d _ le_rfl, rfl⟩
    · exact .inl rfl
  | _ => exact .inl rfl

theorem spawn_pcm (hH : Holds s) (o : Obj) {y : XData} : (s.spawn o).HoldsPcm y ↔ s.HoldsPcm y := by
  have hW : (∃ d n, y ∈ ((s.spawn o).decW d n).pcm) ↔ ∃ d n, y ∈ (s.decW d n).pcm := by
    refine exists_congr fun d => exists_congr fun n => ?_
    rcases spawn_decW hH o d n with h | ⟨h, h'⟩
    · rw [h]
    · rw [h, h']
      exact Iff.rfl
  unfold HoldsPcm
  rw [hW]
  cases o <;> exact Iff.rfl

theorem Commands.buffers {c : Cmd} {cs cs' : List Cmd} (h : Commands L cs s c t cs') (hH : Holds s) (y : XData) :
    (s.HoldsPcm y → t.HoldsPcm y ∨ .dropPcm y ∈ t.log) ∧ (t.HoldsPcm y → s.HoldsPcm y) := by
  have hclear : (s.HoldsPcm y → s.clearFrames.HoldsPcm y ∨ .dropPcm y ∈ s.clearFrames.log) ∧
      (s.clearFrames.HoldsPcm y → s.HoldsPcm y) := by
    refine ⟨clearFrames_pcm, ?_⟩
    rintro (h | h | h)
    · exact .inl h
    · cases h
    · exact .inr (.inr h)
  have hseek : ∀ {pos f pc r}, Seeks L pos f s pc t r →
      (s.HoldsPcm y → t.HoldsPcm y ∨ .dropPcm y ∈ t.log) ∧ (t.HoldsPcm y → s.HoldsPcm y) := by
    intro pos f pc r h
    rcases h.audio_eq with hA | rfl
    · have hW : t.decW = s.decW := (congrArg Player.decW h.eq :)
      have hC : t.call = s.call := (congrArg Player.call h.eq :)
      have hiff : t.HoldsPcm y ↔ s.HoldsPcm y := HoldsPcm.of_eq hW (congrArg IAudioPlay.frames hA) hC
      exact ⟨fun hy => .inl (hiff.mpr hy), hiff.mp⟩
    · exact hclear
  cases h with
  | clearFrames => exact hclear
  | @spawn o => exact ⟨fun hy => .inl ((spawn_pcm hH o).mpr hy), (spawn_pcm hH o).mp⟩
  | seek h => exact hseek h
  | sought h => exact hseek h
  | _ => exact ⟨.inl, id⟩

theorem mem_buffer {log : List Event} {y : XData} : y ∈ log.filterMap Event.buffer ↔ .resampled y ∈ log := by
  rw [List.mem_filterMap]
  constructor
  · rintro ⟨e, he, hy⟩
    cases e <;> cases hy
    exact he
  · exact fun h => ⟨_, h, rfl⟩

theorem buffer_moves (e : Event) (h : e.moves = true) : e.buffer = none := by
  cases e <;> first | rfl | cases h

theorem Decodes.buffers {n : ℕ} {d : Dec} {pc pc' : DecPc} (h : Decodes L d n s pc t pc')
    (ha : ∀ x y, pc = .pcmExit x y → s.isExit .audioPlay = false) :
    (∀ y ∈ pc.pcm, y ∈ pc'.pcm ∨ y ∈ t.audio.frames) ∧ (∀ y ∈ s.audio.frames, y ∈ t.audio.frames) ∧
      (∀ y ∈ t.log.filterMap Event.buffer, y ∈ s.log.filterMap Event.buffer ∨ y ∈ pc'.pcm) ∧
        (∀ y ∈ pc'.pcm, y ∈ pc.pcm ∨ 0 < y.size) ∧ ∀ y ∈ t.audio.frames, y ∈ s.audio.frames ∨ y ∈ pc.pcm := by
  have hnil : ∀ {P : XData → Prop}, ∀ y ∈ ([] : List XData), P y := fun y hy => absurd hy List.not_mem_nil
  cases h with
  | pop | sent | unsent | «show» | notify | drop =>
    exact ⟨hnil, fun _ => id, fun y hy => .inl hy, hnil, fun _ => .inl⟩
  | @pcm x f y hf hm hr =>
    refine ⟨hnil, fun _ => id, fun z hz => ?_, fun z hz => .inr ?_, fun _ => .inl⟩
    · rcases List.mem_cons.mp (show z ∈ y :: s.log.filterMap Event.buffer from hz) with rfl | hz
      · exact .inr (List.mem_singleton.mpr rfl)
      · exact .inl hz
    · obtain rfl := List.mem_singleton.mp hz
      exact (FFResample.resample_size hr).1
  | @pcmLost x y hx =>
    have hx' := ha x y rfl
    rw [hx] at hx'
    cases hx'
  | pcmGo | pcmFull => exact ⟨fun y hy => .inl hy, fun _ => id, fun _ => .inl, fun _ => .inl, fun _ => .inl⟩
  | @pcmPush x y hl =>
    refine ⟨fun z hz => .inr ?_, fun z hz => List.mem_append_left _ hz, fun z hz => .inl hz, hnil, fun z hz => ?_⟩
    · exact List.mem_append_right _ hz
    · exact List.mem_append.mp hz
  | _ => exact ⟨hnil, fun _ => id, fun _ => .inl, hnil, fun _ => .inl⟩

theorem callStep_pcm {x p : Bool} (a : IAudioPlay) (pc : CallPc) (y : XData) :
    (y ∈ pc.pcm → 0 < y.size →
      (∃ pc', (callStep x p a pc).2 = some pc' ∧ y ∈ pc'.pcm) ∨ .dropPcm y ∈ (callEvent a pc).toList) ∧
    (y ∈ a.frames → y ∈ (callStep x p a pc).1.frames ∨ ∃ pc', (callStep x p a pc).2 = some pc' ∧ y ∈ pc'.pcm) ∧
    (y ∈ (callStep x p a pc).1.frames → y ∈ a.frames) ∧
    ((∃ pc', (callStep x p a pc).2 = some pc' ∧ y ∈ pc'.pcm) → y ∈ pc.pcm ∨ y ∈ a.frames) := by
  cases pc with
  | exitTest =>
    refine ⟨fun hy => absurd hy List.not_mem_nil, .inl, id, ?_⟩
    rintro ⟨pc', he, hy⟩
    simp only [callStep] at he
    split at he <;> cases he
    cases hy
  | pauseTest =>
    refine ⟨fun hy => absurd hy List.not_mem_nil, .inl, id, ?_⟩
    rintro ⟨pc', he, hy⟩
    simp only [callStep, Option.some.injEq] at he
    subst he
    split at hy <;> cases hy
  | «section» =>
    refine ⟨fun hy => absurd hy List.not_mem_nil, fun hy => ?_, fun hy => ?_, ?_⟩ <;>
      rcases hf : a.frames with _ | ⟨z, rest⟩
    · rw [hf] at hy
      cases hy
    · rw [hf] at hy
      simp only [callStep, hf]
      rcases List.mem_cons.mp hy with rfl | hy
      · exact .inr ⟨_, rfl, List.mem_singleton.mpr rfl⟩
      · exact .inl hy
    · simp [callStep, hf] at hy
    · simp only [callStep, hf] at hy
      exact List.mem_cons_of_mem _ hy
    · rintro ⟨pc', he, hy⟩
      simp only [callStep, hf] at he
      cases he
      cases hy
    · rintro ⟨pc', he, hy⟩
      simp only [callStep, hf] at he
      cases he
      obtain rfl := List.mem_singleton.mp hy
      exact .inr (List.mem_cons_self ..)
  | got z =>
    refine ⟨fun hy hp => .inl ?_, .inl, id, ?_⟩
    · obtain rfl := List.mem_singleton.mp hy
      simp only [callStep, if_neg (not_le.mpr hp)]
      exact ⟨_, rfl, List.mem_singleton.mpr rfl⟩
    · rintro ⟨pc', he, hy⟩
      simp only [callStep] at he
      split at he <;> cases he
      exact .inl hy
  | copy z | enqueue z =>
    refine ⟨fun hy _ => .inl ⟨_, rfl, hy⟩, .inl, id, ?_⟩
    rintro ⟨_, he, hy⟩
    cases he
    exact .inl hy
  | drop z =>
    refine ⟨fun hy _ => .inr ?_, .inl, id, ?_⟩
    · obtain rfl := List.mem_singleton.mp hy
      exact List.mem_singleton.mpr rfl
    · rintro ⟨_, he, _⟩
      cases he

/-! ### Along a run -/

theorem Accounted.demux (h : Accounted s) {n : ℕ} {pc' : DemuxPc} (hd : Demuxes n s (s.demuxW n) t pc')
    (ha : Kept (.demux n) s) (hv : (t.dec .video).isAudio = false) : Accounted (t.setDemux n pc') := by
  obtain ⟨h1, h2, h3, h4⟩ := hd.keeps rfl h.video ha
  have hui : t.ui = s.ui := (congrArg Player.ui hd.eq :)
  have hW : t.decW = s.decW := (congrArg Player.decW hd.eq :)
  have hD : t.demuxW = s.demuxW := (congrArg Player.demuxW hd.eq :)
  have hA : t.audio = s.audio := (congrArg Player.audio hd.eq :)
  have hC : t.call = s.call := (congrArg Player.call hd.eq :)
  have hself : (t.setDemux n pc').demuxW n = pc' := Function.update_self ..
  have hother : ∀ m, m ≠ n → (t.setDemux n pc').demuxW m = s.demuxW m := by
    intro m hm
    show Function.update t.demuxW n pc' m = _
    rw [Function.update_of_ne hm, hD]
  have hp : ∀ {y}, (t.setDemux n pc').HoldsPcm y ↔ s.HoldsPcm y :=
    fun {y} => HoldsPcm.of_eq hW (congrArg IAudioPlay.frames hA) hC
  refine ⟨hv, fun w x hx => ?_, fun y hy => ?_, fun y hy => h.size y (hp.mp hy)⟩
  · rcases h4 w x hx with hx | hx
    · rcases h.packets w x hx with ⟨w', hw⟩ | hs
      · exact .inl ⟨w', h3 _ hw⟩
      refine .inr ?_
      rcases hs with ⟨m, hm⟩ | ⟨c, hc, hx⟩ | ⟨d, hx⟩ | ⟨d, m, hx⟩
      · by_cases hmn : m = n
        · subst hmn
          rcases h1 x hm with hm | hm
          · exact .inl ⟨m, by rw [hself]; exact hm⟩
          · exact .inr (.inr (.inl hm))
        · exact .inl ⟨m, by rw [hother m hmn]; exact hm⟩
      · exact .inr (.inl ⟨c, by show c ∈ t.ui.head?; rw [hui]; exact hc, hx⟩)
      · exact .inr (.inr (.inl ⟨d, h2 d x hx⟩))
      · exact .inr (.inr (.inr ⟨d, m, by show x ∈ (t.decW d m).owned; rw [hW]; exact hx⟩))
    · exact .inr (.inl ⟨n, by rw [hself]; exact hx⟩)
  · have hy : y ∈ t.log.filterMap Event.buffer := mem_buffer.mpr hy
    rw [hd.log_eq buffer_moves, mem_buffer] at hy
    rcases h.pcm y hy with hy | hy
    · exact .inl (h3 _ hy)
    · exact .inr (hp.mpr hy)

theorem Accounted.dec (h : Accounted s) {d : Dec} {n : ℕ} {pc' : DecPc} (hd : Decodes L d n s (s.decW d n) t pc')
    (ha : Kept (.dec d n) s) : Accounted (t.setDecW d n pc') := by
  obtain ⟨h1, h2, h3, h4⟩ := hd.keeps
  obtain ⟨g1, g2, g3, g4, g5⟩ := hd.buffers fun x y hpc => by simpa only [Kept, hpc] using ha
  have hui : t.ui = s.ui := (congrArg Player.ui hd.eq :)
  have hW : t.decW = s.decW := (congrArg Player.decW hd.eq :)
  have hD : t.demuxW = s.demuxW := (congrArg Player.demuxW hd.eq :)
  have hC : t.call = s.call := (congrArg Player.call hd.eq :)
  have hself : (t.setDecW d n pc').decW d n = pc' := by rw [setDecW_decW, if_pos ⟨rfl, rfl⟩]
  have hother : ∀ d' m, ¬ (d' = d ∧ m = n) → (t.setDecW d n pc').decW d' m = s.decW d' m := by
    intro d' m hm
    rw [setDecW_decW, if_neg hm, hW]
  refine ⟨(decodes_isAudio hd .video).trans h.video, fun w x hx => ?_, fun y hy => ?_, fun y hy => ?_⟩
  · rcases h.packets w x (h4 w x hx) with ⟨w', hw⟩ | hs
    · exact .inl ⟨w', h3 _ hw⟩
    rcases hs with ⟨m, hm⟩ | ⟨c, hc, hx⟩ | ⟨d', hx⟩ | ⟨d', m, hx'⟩
    · exact .inr (.inl ⟨m, by show x ∈ (t.demuxW m).pending; rw [hD]; exact hm⟩)
    · exact .inr (.inr (.inl ⟨c, by show c ∈ t.ui.head?; rw [hui]; exact hc, hx⟩))
    · rcases h2 d' x hx with hx | hx
      · exact .inr (.inr (.inr (.inl ⟨d', hx⟩)))
      · exact .inr (.inr (.inr (.inr ⟨d, n, by rw [hself]; exact hx⟩)))
    · by_cases hm : d' = d ∧ m = n
      · obtain ⟨rfl, rfl⟩ := hm
        rcases h1 x hx' with hx' | hx'
        · exact .inr (.inr (.inr (.inr ⟨_, _, by rw [hself]; exact hx'⟩)))
        · exact .inl hx'
      · exact .inr (.inr (.inr (.inr ⟨d', m, by rw [hother d' m hm]; exact hx'⟩)))
  · have hy : y ∈ t.log.filterMap Event.buffer := mem_buffer.mpr hy
    rcases g3 y hy with hy | hy
    · rcases h.pcm y (mem_buffer.mp hy) with hy | hy
      · exact .inl (h3 _ hy)
      · refine .inr ?_
        rcases hy with ⟨d', m, hy'⟩ | hy | ⟨pc, hpc, hy⟩
        · by_cases hm : d' = d ∧ m = n
          · obtain ⟨rfl, rfl⟩ := hm
            rcases g1 y hy' with hy' | hy'
            · exact .inl ⟨_, _, by rw [hself]; exact hy'⟩
            · exact .inr (.inl hy')
          · exact .inl ⟨d', m, by rw [hother d' m hm]; exact hy'⟩
        · exact .inr (.inl (g2 y hy))
        · exact .inr (.inr ⟨pc, hC.trans hpc, hy⟩)
    · exact .inr (.inl ⟨d, n, by rw [hself]; exact hy⟩)
  · rcases hy with ⟨d', m, hy'⟩ | hy | ⟨pc, hpc, hy⟩
    · by_cases hm : d' = d ∧ m = n
      · obtain ⟨rfl, rfl⟩ := hm
        rw [hself] at hy'
        rcases g4 y hy' with hy' | hy'
        · exact h.size y (.inl ⟨_, _, hy'⟩)
        · exact hy'
      · rw [hother d' m hm] at hy'
        exact h.size y (.inl ⟨d', m, hy'⟩)
    · rcases g5 y hy with hy | hy
      · exact h.size y (.inr (.inl hy))
      · exact h.size y (.inl ⟨d, n, hy⟩)
    · exact h.size y (.inr (.inr ⟨pc, hC.symm.trans hpc, hy⟩))

theorem Accounted.call (h : Accounted s) {pc : CallPc} (hc : s.call = some pc) : Accounted
    { s with audio := (callStep (s.isExit .audioPlay) (s.isPause .audioPlay) s.audio pc).1,
             call := (callStep (s.isExit .audioPlay) (s.isPause .audioPlay) s.audio pc).2,
             log := (callEvent s.audio pc).toList ++ s.log } := by
  have hg := fun y => callStep_pcm (x := s.isExit .audioPlay) (p := s.isPause .audioPlay) s.audio pc y
  have hne : ∀ e ∈ (callEvent s.audio pc).toList, (∀ w x, e ≠ .read w x) ∧ ∀ y, e ≠ .resampled y := by
    intro e he
    have he : callEvent s.audio pc = some e := Option.mem_toList.mp he
    cases pc with
    | «section» =>
      obtain ⟨y, -, rfl⟩ := Option.map_eq_some_iff.mp he
      exact ⟨fun _ _ h => (by cases h), fun _ h => (by cases h)⟩
    | drop y => cases he; exact ⟨fun _ _ h => (by cases h), fun _ h => (by cases h)⟩
    | _ => cases he
  refine ⟨h.video, fun w x hx => ?_, fun y hy => ?_, fun y hy => ?_⟩
  · rcases List.mem_append.mp hx with hx | hx
    · exact absurd rfl ((hne _ hx).1 w x)
    · rcases h.packets w x hx with ⟨w', hw⟩ | hs
      · exact .inl ⟨w', List.mem_append_right _ hw⟩
      · exact .inr hs
  · rcases List.mem_append.mp hy with hy | hy
    · exact absurd rfl ((hne _ hy).2 y)
    · rcases h.pcm y hy with hy | hs
      · exact .inl (List.mem_append_right _ hy)
      · have hp := h.size y hs
        rcases hs with hs | hs | ⟨pc', hpc, hs⟩
        · exact .inr (.inl hs)
        · rcases (hg y).2.1 hs with hs | ⟨pc', he, hs⟩
          · exact .inr (.inr (.inl hs))
          · exact .inr (.inr (.inr ⟨pc', he, hs⟩))
        · obtain rfl : pc = pc' := Option.some.inj (hc.symm.trans hpc)
          rcases (hg y).1 hs hp with ⟨pc', he, hs⟩ | hs
          · exact .inr (.inr (.inr ⟨pc', he, hs⟩))
          · exact .inl (List.mem_append_left _ hs)
  · rcases hy with hy | hy | hy
    · exact h.size y (.inl hy)
    · exact h.size y (.inr (.inl ((hg y).2.2.1 hy)))
    · rcases (hg y).2.2.2 hy with hy | hy
      · exact h.size y (.inr (.inr ⟨pc, hc, hy⟩))
      · exact h.size y (.inr (.inl hy))

/-- A step of the controller leaves the places of the threads, or spawns a thread. -/
theorem Commands.threads {c : Cmd} {cs cs' : List Cmd} (h : Commands L cs s c t cs') (hH : Holds s)
    (hS : Spawned s) : (∀ n x, x ∈ (s.demuxW n).pending → x ∈ (t.demuxW n).pending) ∧
      ∀ d n x, x ∈ (s.decW d n).owned → x ∈ (t.decW d n).owned := by
  cases h with
  | @spawn o =>
    refine ⟨fun n x hx => ?_, fun d n x hx => ?_⟩
    · cases o with
      | demux =>
        show x ∈ (Function.update s.demuxW s.demuxN .exitTest n).pending
        by_cases hn : n = s.demuxN
        · subst hn
          rw [hS.demux _ le_rfl] at hx
          cases hx
        · rw [Function.update_of_ne hn]
          exact hx
      | _ => exact hx
    · rcases spawn_decW hH o d n with h | ⟨h, -⟩
      · rw [h]
        exact hx
      · rw [h] at hx
        cases hx
  | seek h =>
    have hD : t.demuxW = s.demuxW := (congrArg Player.demuxW h.eq :)
    have hW : t.decW = s.decW := (congrArg Player.decW h.eq :)
    rw [hD, hW]
    exact ⟨fun _ _ => id, fun _ _ _ => id⟩
  | sought h =>
    have hD : t.demuxW = s.demuxW := (congrArg Player.demuxW h.eq :)
    have hW : t.decW = s.decW := (congrArg Player.decW h.eq :)
    rw [hD, hW]
    exact ⟨fun _ _ => id, fun _ _ _ => id⟩
  | _ => exact ⟨fun _ _ => id, fun _ _ _ => id⟩

theorem Accounted.ui (h : Accounted s) {c : Cmd} {cs cs' : List Cmd} (hui : s.ui = c :: cs)
    (hc : Commands L cs s c t cs') (ha : Kept .ui s) (hH : Holds s) (hS : Spawned s)
    (hv : (t.dec .video).isAudio = false) : Accounted { t with ui := cs' } := by
  have hk := hc.keeps hui h.video ha
  obtain ⟨hD, hW⟩ := hc.threads hH hS
  have hafter : ∀ x ∈ (cs'.head?.map Cmd.pending).getD [], ∃ c ∈ cs'.head?, x ∈ c.pending := by
    intro x hx
    rcases hh : cs'.head? with _ | c'
    · rw [hh] at hx
      cases hx
    · rw [hh] at hx
      exact ⟨c', rfl, hx⟩
  refine ⟨hv, fun w x hx => ?_, fun y hy => ?_, fun y hy => h.size y ((hc.buffers hH y).2 hy)⟩
  · rcases hk.read w x hx with hx | hx
    · rcases h.packets w x hx with ⟨w', hw⟩ | hs
      · exact .inl ⟨w', hk.log _ hw⟩
      rcases hs with ⟨m, hm⟩ | ⟨c', hc', hx⟩ | ⟨d, hx⟩ | ⟨d, m, hx⟩
      · exact .inr (.inl ⟨m, hD m x hm⟩)
      · rw [hui] at hc'
        cases hc'
        rcases hk.held x hx with hx | hx | hx
        · exact .inr (.inr (.inl (hafter x hx)))
        · exact .inr (.inr (.inr (.inl hx)))
        · exact .inl hx
      · rcases hk.queues d x hx with hx | hx
        · exact .inr (.inr (.inr (.inl ⟨d, hx⟩)))
        · exact .inl hx
      · exact .inr (.inr (.inr (.inr ⟨d, m, hW d m x hx⟩)))
    · exact .inr (.inr (.inl (hafter x hx)))
  · have hold : .resampled y ∈ s.log := by
      have hy' : y ∈ t.log.filterMap Event.buffer := mem_buffer.mpr hy
      rw [← mem_buffer]
      by_cases hret : ∃ k, c = .ret k
      · obtain ⟨k, rfl⟩ := hret
        cases hc
        exact hy'
      · rw [hc.log_eq buffer_moves fun k he => hret ⟨k, he⟩] at hy'
        exact hy'
    rcases h.pcm y hold with hy | hy
    · exact .inl (hk.log _ hy)
    · rcases (hc.buffers hH y).1 hy with hy | hy
      · exact .inr hy
      · exact .inl hy

theorem Accounted.of_eq (h : Accounted s) (hd : t.dec = s.dec) (hl : t.log = s.log) (hD : t.demuxW = s.demuxW)
    (hW : t.decW = s.decW) (hA : t.audio = s.audio) (hC : t.call = s.call) (hu : t.ui = s.ui) : Accounted t := by
  have hp : ∀ {y}, t.HoldsPcm y ↔ s.HoldsPcm y :=
    fun {y} => HoldsPcm.of_eq hW (congrArg IAudioPlay.frames hA) hC
  refine ⟨by rw [hd]; exact h.video, fun w x hx => ?_, fun y hy => ?_, fun y hy => h.size y (hp.mp hy)⟩
  · rw [hl] at hx ⊢
    unfold Somewhere
    rw [hd, hD, hW, hu]
    exact h.packets w x hx
  · rw [hl] at hy ⊢
    rw [hp]
    exact h.pcm y hy

theorem Accounted.step {a : Act} (h : Accounted s) (hH : Holds s) (hS : Spawned s) (ha : Kept a s)
    (hs : s.step L a = some s') : Accounted s' := by
  have hst := steps hs
  cases a with
  | demux n =>
    cases hst with
    | @demux n t pc hd =>
      refine h.demux hd ha ?_
      have hu : ∀ {u t r}, Updates (.demux n) s u t r → (t.dec .video).isAudio = false :=
        fun hu => (updates_isAudio hu .video).trans h.video
      generalize s.demuxW n = pc₀ at hd
      cases hd with
      | read | nothing => rw [readBy_eq]; exact h.video
      | update hd => exact hu hd
      | done hd => exact (hu hd :)
      | _ => exact h.video
  | dec d n =>
    cases hst with
    | dec hd => exact h.dec hd ha
  | sync n =>
    cases hst with
    | syncExit | syncMore => exact h.of_eq rfl rfl rfl rfl rfl rfl rfl
    | sync hp hm =>
      have hv : ∀ d, (s.dec d).packs = ((s.setDec .video { s.dec .video with synPts := s.audio.pts }).dec d).packs ∧
          ((s.setDec .video { s.dec .video with synPts := s.audio.pts }).dec d).isAudio = (s.dec d).isAudio := by
        intro d
        cases d <;> simp [setDec]
      refine ⟨(hv .video).2.trans h.video, fun w x hx => ?_, fun y hy => ?_, h.size⟩
      case refine_2 =>
        rcases List.mem_cons.mp hy with hy | hy
        · cases hy
        · exact (h.pcm y hy).imp (List.mem_cons_of_mem _) id
      have hx : .read w x ∈ s.log := by
        rcases List.mem_cons.mp hx with hx | hx
        · cases hx
        · exact hx
      rcases h.packets w x hx with ⟨w', hw⟩ | hn | hu | ⟨d, hx⟩ | hW
      · exact .inl ⟨w', List.mem_cons_of_mem _ hw⟩
      · exact .inr (.inl hn)
      · exact .inr (.inr (.inl hu))
      · rw [(hv d).1] at hx
        exact .inr (.inr (.inr (.inl ⟨d, hx⟩)))
      · exact .inr (.inr (.inr (.inr hW)))
  | device =>
    cases hst with
    | device hc =>
      have hp : ∀ {y}, ({ s with call := some .exitTest } : Player K).HoldsPcm y ↔ s.HoldsPcm y := by
        intro y
        unfold HoldsPcm
        simp [hc, CallPc.pcm]
      exact ⟨h.video, h.packets, fun y hy => (h.pcm y hy).imp id hp.mpr, fun y hy => h.size y (hp.mp hy)⟩
  | call =>
    cases hst with
    | call hc => exact h.call hc
  | ui =>
    cases hst with
    | @ui c cs t cs' hui hc =>
      simp only [Player.step, uiStep, hui] at hs
      exact h.ui hui hc ha hH hS (cmdStep_video hs h.video :)
  | request c =>
    cases hst with
    | request hui =>
      have hlog : ∀ e ∈ s.log, e ∈ (s.emit (.called c.kind)).log := fun e he => List.mem_cons_of_mem _ he
      refine ⟨h.video, fun w x hx => ?_, fun y hy => ?_, h.size⟩
      · rcases List.mem_cons.mp hx with hx | hx
        · cases hx
        · rcases h.packets w x hx with ⟨w', hw⟩ | hn | ⟨c', hc', -⟩ | hx
          · exact .inl ⟨w', hlog _ hw⟩
          · exact .inr (.inl hn)
          · rw [hui] at hc'
            cases hc'
          · exact .inr (.inr (.inr hx))
      · rcases List.mem_cons.mp hy with hy | hy
        · cases hy
        · exact (h.pcm y hy).imp (hlog _) id

/-- `Close` has returned, and all threads and callbacks have ended. -/
structure Finished (s : Player K) : Prop where
  closed : s.closed = true
  ui : s.ui = []
  demux : ∀ n, s.demuxW n = .gone
  dec : ∀ d n, s.decW d n = .gone
  sync : ∀ n, s.syncW n = .gone
  call : s.call = none

end Player

/-- Every packet and every buffer of the history was released. -/
structure Released (log : List Event) : Prop where
  packets : ∀ w x, .read w x ∈ log → ∃ w', .drop w' x ∈ log
  pcm : ∀ y, .resampled y ∈ log → .dropPcm y ∈ log

open Player

theorem accounted_init (total : ℤ) : Accounted ({ demux := { total := total } } : Player K) := by
  refine ⟨rfl, fun w x hx => ?_, fun y hy => ?_, fun y hy => ?_⟩
  · cases hx
  · cases hy
  · rcases hy with ⟨_, _, hy⟩ | hy | ⟨_, hpc, _⟩
    · cases hy
    · cases hy
    · cases hpc

/-- In every run that meets the conditions and ends with the player closed and all threads finished, all
packets and buffers are released. -/
theorem no_leak (L : FFmpeg K) {s : Player K}
    (h : (player L).Reach (fun a s => Kept a s ∧ NothingStored a s) s) (hf : s.Finished) : Released s.log := by
  have hI : Accounted s ∧ Closing s := by
    refine h.inv (I := fun s => Accounted s ∧ Closing s) ?_ fun a s t hI ha hs =>
      ⟨hI.1.step hI.2.holds hI.2.spawned ha.1 hs, hI.2.step ha.2 (steps hs)⟩
    rintro _ ⟨total, rfl⟩
    exact ⟨accounted_init total, closing_init total⟩
  obtain ⟨hst, -⟩ := hI.2.phases.closed hf.closed
  have hp : ∀ d, (s.dec d).packs = [] := fun d => (hst.packs d (by cases d <;> decide)).1
  refine ⟨fun w x hx => ?_, fun y hy => ?_⟩
  · rcases hI.1.packets w x hx with hw | ⟨n, hn⟩ | ⟨c, hc, -⟩ | ⟨d, hx⟩ | ⟨d, n, hx⟩
    · exact hw
    · rw [hf.demux] at hn
      cases hn
    · rw [hf.ui] at hc
      cases hc
    · rw [hp] at hx
      cases hx
    · rw [hf.dec] at hx
      cases hx
  · rcases hI.1.pcm y hy with hy | ⟨d, n, hy⟩ | hy | ⟨pc, hpc, -⟩
    · exact hy
    · rw [hf.dec] at hy
      cases hy
    · rw [hst.frames (by omega)] at hy
      cases hy
    · rw [hf.call] at hpc
      cases hpc

/-! ### Two runs to their end -/

theorem Player.spawned_reach {ok : Act → Player K → Prop} {s : Player K} (h : (player L).Reach ok s) :
    Holds s ∧ Spawned s := by
  refine h.inv (I := fun s => Holds s ∧ Spawned s) ?_ fun a s t hI _ hs =>
    ⟨hI.1.step (steps hs), hI.2.step (steps hs)⟩
  rintro _ ⟨total, rfl⟩
  exact ⟨(closing_init total).holds, (closing_init total).spawned⟩

/-- A player with one worker of each kind, whose workers have ended. -/
theorem Player.Finished.of_one {ok : Act → Player K → Prop} {s : Player K} (h : (player L).Reach ok s)
    (hc : s.closed = true) (hui : s.ui.isEmpty = true)
    (hN : (s.demuxN, s.decN .video, s.decN .audio, s.syncN) = (1, 1, 1, 1))
    (hp : (s.demuxW 0, s.decW .video 0, s.decW .audio 0, s.syncW 0) = (.gone, .gone, .gone, .gone))
    (hcall : s.call = none) : s.Finished := by
  obtain ⟨hH, hS⟩ := spawned_reach h
  simp only [Prod.mk.injEq] at hN hp
  refine ⟨hc, List.isEmpty_iff.mp hui, fun n => ?_, fun d n => ?_, fun n => ?_, hcall⟩
  · rcases Nat.eq_zero_or_pos n with rfl | hn
    · exact hp.1
    · exact hS.demux n (by omega)
  · rcases Nat.eq_zero_or_pos n with rfl | hn
    · cases d
      · exact hp.2.1
      · exact hp.2.2.1
    · refine hH.gone d n ?_
      cases d <;> omega
  · rcases Nat.eq_zero_or_pos n with rfl | hn
    · exact hp.2.2.2
    · exact hS.sync n (by omega)

/-- `Close` of a playing player, and the last step of each worker. -/
def closeAll : List Act :=
  .request .close :: List.replicate 19 .ui ++ [.demux 0, .dec .video 0, .dec .audio 0, .sync 0]

set_option maxRecDepth 8000 in
/-- A video and an audio packet are decoded, and another audio packet is still in its queue when `Close` is called.
Of the two audio frames one has been played, and the other one is still in its queue. -/
theorem no_leak_played : ∃ s : Player (List AVFrame), s.log.filterMap Event.dropped = [2, 1, 0] ∧
    s.log.countP (fun e => e matches .resampled _) = 2 ∧ Released s.log := by
  have hr : ((player bytewise).execIf (fun a s => Kept a s ∧ NothingStored a s)
      (openStart [⟨0, 40, 40, [1]⟩, ⟨1, 40, 40, [1, 2]⟩, ⟨1, 80, 80, [1]⟩] .opened ++ List.replicate 24 (.demux 0) ++
        List.replicate 10 (.dec .video 0) ++ List.replicate 19 (.dec .audio 0) ++ .device :: List.replicate 7 .call ++
        closeAll) { demux := { total := 0 } }).map (fun s =>
          ((s.log.filterMap Event.dropped, s.log.countP (fun e => e matches .resampled _)), s.closed, s.ui.isEmpty,
            (s.demuxN, s.decN .video, s.decN .audio, s.syncN),
            (s.demuxW 0, s.decW .video 0, s.decW .audio 0, s.syncW 0), s.call)) =
      some (([2, 1, 0], 2), true, true, (1, 1, 1, 1), (.gone, .gone, .gone, .gone), none) := rfl
  obtain ⟨s, hs, he⟩ := Option.map_eq_some_iff.mp hr
  obtain ⟨hl, he⟩ := Prod.mk.inj he
  obtain ⟨hc, he⟩ := Prod.mk.inj he
  obtain ⟨hui, he⟩ := Prod.mk.inj he
  obtain ⟨hN, he⟩ := Prod.mk.inj he
  obtain ⟨hp, hcall⟩ := Prod.mk.inj he
  have hreach : (player bytewise).Reach (fun a s => Kept a s ∧ NothingStored a s) s := ⟨_, ⟨0, rfl⟩, .of_execIf hs⟩
  exact ⟨s, (Prod.mk.inj hl).1, (Prod.mk.inj hl).2, no_leak bytewise hreach (.of_one hreach hc hui hN hp hcall)⟩

set_option maxRecDepth 4000 in
/-- A packet of size zero is read, and never dropped. -/
theorem packet_leaked : ¬ ∀ s : Player Unit, (player silent).Reach Sys.any s → s.Finished → Released s.log := by
  intro h
  have hr : ((player silent).exec (openStart [⟨0, 40, 40, []⟩] .opened ++ List.replicate 3 (.demux 0) ++ closeAll)
      { demux := { total := 0 } }).map (fun s =>
        (s.log.filterMap Event.custody, s.closed, s.ui.isEmpty, (s.demuxN, s.decN .video, s.decN .audio, s.syncN),
          (s.demuxW 0, s.decW .video 0, s.decW .audio 0, s.syncW 0), s.call)) =
      some ([.take 0 (.demux 0)], true, true, (1, 1, 1, 1), (.gone, .gone, .gone, .gone), none) := rfl
  obtain ⟨s, hs, he⟩ := Option.map_eq_some_iff.mp hr
  obtain ⟨hl, he⟩ := Prod.mk.inj he
  obtain ⟨hc, he⟩ := Prod.mk.inj he
  obtain ⟨hui, he⟩ := Prod.mk.inj he
  obtain ⟨hN, he⟩ := Prod.mk.inj he
  obtain ⟨hp, hcall⟩ := Prod.mk.inj he
  have hreach : (player silent).Reach Sys.any s := ⟨_, ⟨0, rfl⟩, .of_exec_any hs⟩
  have hR := h s hreach (.of_one hreach hc hui hN hp hcall)
  obtain ⟨e, he, hread⟩ : ∃ e ∈ s.log, e.custody = some (.take 0 (.demux 0)) := by
    rw [← List.mem_filterMap, hl]
    exact List.mem_singleton.mpr rfl
  cases e with
  | read w x =>
    obtain ⟨w', hw⟩ := hR.packets w x he
    have hm : (.free x.handle w' : Custody.Ev ℕ Holder) ∈ s.log.filterMap Event.custody :=
      List.mem_filterMap.mpr ⟨_, hw, rfl⟩
    rw [hl, List.mem_singleton] at hm
    cases hm
  | _ => cases hread

end XPlayer
