import XPlayer.Clock
import XPlayer.Owner

/-!
# Video ahead of audio

`IDecode::Main` of the video decoder tests `synPts < pts` before it pops a packet: `pts` is the position of
the last frame it has shown, and `synPts` is a position of the audio that has been handed out (`Led`). So
the frame before the first frame of a packet is not ahead of the audio. The other frames of the packet are
passed on without a test: for them the gate is the condition `GateOpen` (`video_leads`).

A run begins with a player that has been opened, and goes on without `Seek` and `Open`. `Close` resets `pts`;
after that the decoder shows nothing (`Phase`).
-/

namespace XPlayer
variable {K : Type} {L : FFmpeg K}

/-- `vDecode` passes a frame to `Notify`. -/
def Event.shown : Event → Option XData
  | .notify .video f => some f
  | _ => none

/-- The frame that was shown last. -/
def lastShown (log : List Event) : Option XData := (log.filterMap Event.shown).head?

/-- The buffer that `GetData` has handed out last. -/
def lastPlayed (log : List Event) : Option XData := (log.filterMap Event.played).head?

/-- The last frame is not ahead of the audio. -/
def Behind (log : List Event) : Prop := ∀ f ∈ lastShown log, ∃ y ∈ lastPlayed log, f.pts ≤ y.pts

/-- The positions handed out are positive and do not decrease; newest first. -/
def Rising (played : List XData) : Prop :=
  (∀ x ∈ played, 0 < x.pts) ∧ played.Pairwise fun y x => x.pts ≤ y.pts

/-- The frame that the worker is about to show. -/
def DecPc.passing : DecPc → Option XData
  | .notify _ f => some f
  | _ => none

theorem DecPc.passing_locked {pc : DecPc} {f : XData} (h : f ∈ pc.passing) : pc.locked = true := by
  cases pc <;> first | rfl | cases h

theorem DecPc.passing_decoding {pc : DecPc} (h : pc.decoding = false) : pc.passing = none := by
  cases pc <;> first | rfl | cases h

/-- The commands of `Start` and `SetPause`. -/
def Cmd.plays : Cmd → Bool
  | .lock | .unlock | .exit .. | .pause .. | .spawn _ | .clearFrames | .ret _ => true
  | _ => false

theorem Call.program_plays (c : Call) (ho : c.kind ≠ .open) (hs : c.kind ≠ .seek) :
    c.program = closeFrom 0 ∨ ∀ b ∈ c.program, b.plays = true := by
  cases c with
  | «open» => exact absurd rfl ho
  | seek => exact absurd rfl hs
  | close => exact .inl rfl
  | start sl => cases sl <;> exact .inr (by simp [Call.program, startCmds, startThread, Cmd.plays])
  | setPause isP => exact .inr (by simp [Call.program, pauseCmds, Cmd.plays])

theorem recvFrame_pts {D : FFDecode K} (h : (D.recvFrame L).1.data ≠ .null) :
    (D.recvFrame L).1.pts = (D.recvFrame L).2.pts := by
  unfold FFDecode.recvFrame at h ⊢
  split at h
  · exact absurd rfl h
  · rfl

theorem recvFrame_null {D : FFDecode K} (h : (D.recvFrame L).1.data = .null) :
    (D.recvFrame L).2.pts = D.pts := by
  unfold FFDecode.recvFrame at h ⊢
  split at h
  · rfl
  · cases h

theorem sendPacket_pts (D : FFDecode K) (x : XData) : (D.sendPacket L x).2.pts = D.pts := by
  unfold FFDecode.sendPacket
  split
  · rfl
  · split <;> rfl

/-- Without a codec nothing is received. -/
theorem recvFrame_none {D : FFDecode K} (h : D.codec = none) :
    (D.recvFrame L).1.data = .null ∧ (D.recvFrame L).2.codec = none := by
  unfold FFDecode.recvFrame
  rw [h]
  exact ⟨rfl, rfl⟩

theorem sendPacket_none {D : FFDecode K} (x : XData) (h : D.codec = none) : (D.sendPacket L x).2.codec = none := by
  unfold FFDecode.sendPacket
  rw [h]
  split
  · exact h
  · split
    · exact h
    · rfl

namespace Player
variable {s s' t : Player K}

/-! ### The last frame and `pts` -/

/-- `pts` of the video decoder is the position of the frame that a worker is about to show, or of the last
one shown. -/
structure Shown (s : Player K) : Prop where
  passing : ∀ n, ∀ f ∈ (s.decW .video n).passing, f.pts = (s.dec .video).pts
  last : (∀ n, (s.decW .video n).passing = none) → ∀ f ∈ lastShown s.log, f.pts = (s.dec .video).pts

/-- The codec of the video decoder has been freed. -/
structure Dead (s : Player K) : Prop where
  codec : (s.dec .video).codec = none
  passing : ∀ n, (s.decW .video n).passing = none

theorem Shown.of_eq (h : Shown s) (hW : ∀ n, (t.decW .video n).passing = (s.decW .video n).passing)
    (hp : (t.dec .video).pts = (s.dec .video).pts)
    (hl : t.log.filterMap Event.shown = s.log.filterMap Event.shown) : Shown t := by
  refine ⟨fun n f hf => ?_, fun hn f hf => ?_⟩
  · rw [hW] at hf
    exact (h.passing n f hf).trans hp.symm
  · unfold lastShown at hf
    rw [hl] at hf
    exact (h.last (fun n => (hW n).symm.trans (hn n)) f hf).trans hp.symm

theorem Dead.of_eq (h : Dead s) (hW : ∀ n, (t.decW .video n).passing = (s.decW .video n).passing)
    (hc : (t.dec .video).codec = (s.dec .video).codec) : Dead t :=
  ⟨hc.trans h.codec, fun n => (hW n).trans (h.passing n)⟩

/-- Only one worker is between `lock` and `unlock`. -/
theorem Holds.alone (h : Holds s) {d : Dec} {m n : ℕ} (hm : (s.decW d m).locked = true)
    (hn : (s.decW d n).locked = true) : m = n :=
  Option.some.inj (((h.holder d m).mpr hm).symm.trans ((h.holder d n).mpr hn))

theorem Shown.video (h : Shown s) (hH : Holds s) {n : ℕ} {pc : DecPc}
    (hd : Decodes L .video n s (s.decW .video n) t pc) : Shown (t.setDecW .video n pc) := by
  have hW : t.decW = s.decW := (congrArg Player.decW hd.eq :)
  obtain ⟨pc₀, hpc⟩ : ∃ pc₀, s.decW .video n = pc₀ := ⟨_, rfl⟩
  rw [hpc] at hd
  have hsame : pc.passing = pc₀.passing → (t.dec .video).pts = (s.dec .video).pts →
      t.log.filterMap Event.shown = s.log.filterMap Event.shown → Shown (t.setDecW .video n pc) := by
    intro hp hpts hl
    refine h.of_eq (fun m => ?_) hpts hl
    rw [setDecW_decW, hW]
    split
    · rename_i he
      rw [he.2, hpc, hp]
    · rfl
  -- the other workers are outside while this one is between `lock` and `unlock`
  have hother : pc₀.locked = true → ∀ m, m ≠ n → (s.decW .video m).passing = none := by
    intro hl m hm
    rw [Option.eq_none_iff_forall_not_mem]
    intro f hf
    exact hm (hH.alone (DecPc.passing_locked hf) (hpc ▸ hl))
  cases hd with
  | pop => exact hsame rfl (by simp [popped, emit, setPacks]) rfl
  | @sent x | @unsent x => exact hsame rfl ((congrArg FFDecode.pts (s.setDec_self ..)).trans (sendPacket_pts ..)) rfl
  | drained hr => exact hsame rfl ((congrArg FFDecode.pts (s.setDec_self ..)).trans (recvFrame_null hr)) rfl
  | @recv x hr =>
    refine ⟨fun m f hf => ?_, fun hn => ?_⟩
    · rw [setDecW_decW] at hf
      split at hf
      · cases hf
        exact (recvFrame_pts hr).trans (congrArg FFDecode.pts (s.setDec_self ..)).symm
      · rename_i he
        have hno := hother rfl m fun hm => he ⟨rfl, hm⟩
        have hf : f ∈ (s.decW .video m).passing := hf
        rw [hno] at hf
        cases hf
    · have hno := hn n
      rw [setDecW_decW, if_pos ⟨rfl, rfl⟩] at hno
      cases hno
  | @«show» x f hd =>
    refine ⟨fun m g hg => ?_, fun _ g hg => ?_⟩
    · rw [setDecW_decW] at hg
      split at hg
      · cases hg
      · rename_i he
        have hno := hother rfl m fun hm => he ⟨rfl, hm⟩
        have hg : g ∈ (s.decW .video m).passing := hg
        rw [hno] at hg
        cases hg
    · cases hg
      exact h.passing n f (by rw [hpc]; rfl)
  | notify hd => cases hd
  | _ => exact hsame rfl rfl rfl

theorem Dead.video (h : Dead s) {n : ℕ} {pc : DecPc} (hd : Decodes L .video n s (s.decW .video n) t pc) :
    Dead (t.setDecW .video n pc) := by
  have hW : t.decW = s.decW := (congrArg Player.decW hd.eq :)
  have hp := h.passing n
  generalize s.decW .video n = pc₀ at hd hp
  have hsame : pc.passing = none → (t.dec .video).codec = none → Dead (t.setDecW .video n pc) := by
    intro hp hc
    refine ⟨hc, fun m => ?_⟩
    rw [setDecW_decW, hW]
    split
    · exact hp
    · exact h.passing m
  cases hd with
  | pop => exact hsame rfl (by simpa [popped, emit, setPacks] using h.codec)
  | @sent x | @unsent x =>
    exact hsame rfl ((congrArg FFDecode.codec (s.setDec_self ..)).trans (sendPacket_none x h.codec))
  | drained => exact hsame rfl ((congrArg FFDecode.codec (s.setDec_self ..)).trans (recvFrame_none h.codec).2)
  | recv hr => exact absurd (recvFrame_none h.codec).1 hr
  | «show» | notify => cases hp
  | _ => exact hsame rfl h.codec

/-! ### The controller -/

/-- Where the controller is, with what is known about the video decoder. -/
inductive Phase (s : Player K) : Prop
  | playing (hui : ∀ c ∈ s.ui, c.plays = true) (h : Shown s ∨ Dead s)
  | stopping (k : ℕ) (hk : k ≤ 6) (hui : s.ui = closeFrom k) (hx : 4 ≤ k → s.isExit (.dec .video) = true)
    (h : Shown s ∨ Dead s)
  | clearing (k : ℕ) (h7 : 7 ≤ k) (hk : k ≤ 13) (hui : s.ui = closeFrom k)
    (hx : s.isExit (.dec .video) = true) (h : ∀ n, (s.decW .video n).decoding = false)
  | freed (k : ℕ) (hk : 14 ≤ k) (hui : s.ui = closeFrom k) (h : Dead s)

theorem Commands.plays {c : Cmd} {cs cs' : List Cmd} (hc : Commands L cs s c t cs') (hp : c.plays = true)
    (hH : Holds s) : cs' = cs ∧ t.dec = s.dec ∧ (∀ n, (t.decW .video n).passing = (s.decW .video n).passing) ∧
      t.log.filterMap Event.shown = s.log.filterMap Event.shown := by
  cases hc with
  | @spawn o =>
    cases o with
    | dec d =>
      refine ⟨rfl, rfl, fun n => ?_, rfl⟩
      show ((s.setDecW d (s.decN d) .exitTest).decW .video n).passing = _
      rw [setDecW_decW]
      split
      · rename_i he
        obtain ⟨rfl, rfl⟩ := he
        rw [hH.gone _ _ le_rfl]
        rfl
      · rfl
    | _ => exact ⟨rfl, rfl, fun _ => rfl, rfl⟩
  | clearFrames => exact ⟨rfl, rfl, fun _ => rfl, clearFrames_log fun _ => rfl⟩
  | lock | unlock | exit | pause | ret => exact ⟨rfl, rfl, fun _ => rfl, rfl⟩
  | _ => cases hp

/-- What the steps of the other threads have to keep. -/
theorem Phase.keep (h : Phase s) (hU : t.ui = s.ui) (hF : t.flags = s.flags) (hS : Shown s → Shown t)
    (hD : Dead s → Dead t) (hQ : s.isExit (.dec .video) = true → (∀ n, (s.decW .video n).decoding = false) →
      ∀ n, (t.decW .video n).decoding = false) : Phase t := by
  have hX : t.isExit (.dec .video) = s.isExit (.dec .video) := congrArg (fun F => (F (Obj.dec .video)).isExit) hF
  cases h with
  | playing hui h => exact .playing (hU ▸ hui) (h.imp hS hD)
  | stopping k hk hui hx h => exact .stopping k hk (hU.trans hui) (fun h4 => hX.trans (hx h4)) (h.imp hS hD)
  | clearing k h7 hk hui hx h => exact .clearing k h7 hk (hU.trans hui) (hX.trans hx) (hQ hx h)
  | freed k hk hui h => exact .freed k hk (hU.trans hui) (hD h)

theorem Phase.keep_eq (h : Phase s) (hU : t.ui = s.ui) (hF : t.flags = s.flags)
    (hW : ∀ n, t.decW .video n = s.decW .video n) (hp : (t.dec .video).pts = (s.dec .video).pts)
    (hc : (t.dec .video).codec = (s.dec .video).codec)
    (hl : t.log.filterMap Event.shown = s.log.filterMap Event.shown) : Phase t :=
  h.keep hU hF (fun h => h.of_eq (fun n => congrArg _ (hW n)) hp hl)
    (fun h => h.of_eq (fun n => congrArg _ (hW n)) hc) fun _ h n => (congrArg _ (hW n)).trans (h n)

theorem shown_moves (e : Event) (h : e.moves = true) : e.shown = none := by
  cases e <;> first | rfl | cases h

theorem Phase.worker {a : Act} (h : Phase s) (hH : Holds s) (hs : Steps L s a t) (hui : a ≠ .ui)
    (hr : ∀ c, a ≠ .request c) : Phase t := by
  cases hs with
  | @demux n t pc hd =>
    have hW : t.decW = s.decW := (congrArg Player.decW hd.eq :)
    exact h.keep_eq (congrArg Player.ui hd.eq :) (congrArg Player.flags hd.eq :) (fun n => congrFun (congrFun hW _) n)
      (congrArg FFDecode.pts (hd.dec_fields .video) :) (congrArg FFDecode.codec (hd.dec_fields .video) :)
      (hd.log_eq shown_moves :)
  | @dec d n t pc hd =>
    have hU : t.ui = s.ui := (congrArg Player.ui hd.eq :)
    have hF : t.flags = s.flags := (congrArg Player.flags hd.eq :)
    have hW : t.decW = s.decW := (congrArg Player.decW hd.eq :)
    cases d with
    | video =>
      refine h.keep hU hF (fun h => h.video hH hd) (fun h => h.video hd) fun hx hn m => ?_
      rw [setDecW_decW, hW]
      split
      · exact hd.decoding hx (hn n)
      · exact hn m
    | audio =>
      have hv : t.dec .video = s.dec .video := hd.dec_other nofun
      refine h.keep_eq hU hF (fun m => ?_) (congrArg FFDecode.pts hv) (congrArg FFDecode.codec hv) ?_
      · rw [setDecW_decW, if_neg fun he => by cases he.1]
        exact congrFun (congrFun hW _) m
      · show t.log.filterMap Event.shown = _
        generalize s.decW .audio n = pc₀ at hd
        cases hd with
        | «show» hd => cases hd
        | _ => rfl
  | syncExit | syncMore | device => exact h.keep_eq rfl rfl (fun _ => rfl) rfl rfl rfl
  | sync => exact h.keep_eq rfl rfl (fun _ => rfl) rfl rfl rfl
  | @call pc hpc =>
    refine h.keep_eq rfl rfl (fun _ => rfl) rfl rfl ?_
    simp only [List.filterMap_append]
    rw [callEvent_log (fun _ => rfl) fun _ => rfl]
    rfl
  | ui => exact absurd rfl hui
  | request => exact absurd rfl (hr _)

theorem Phase.playing_step (h : Shown s ∨ Dead s) (hH : Holds s) {c : Cmd} {cs cs' : List Cmd}
    (hc : Commands L cs s c t cs') (hp : c.plays = true) :
    cs' = cs ∧ (Shown { t with ui := cs' } ∨ Dead { t with ui := cs' }) := by
  obtain ⟨rfl, hd, hW, hl⟩ := hc.plays hp hH
  refine ⟨rfl, h.imp (fun h => h.of_eq hW ?_ hl) fun h => h.of_eq hW ?_⟩
  · show (t.dec .video).pts = _
    rw [hd]
  · show (t.dec .video).codec = _
    rw [hd]

theorem Phase.command (h : Phase s) (hH : Holds s) {c : Cmd} {cs cs' : List Cmd} (hui : s.ui = c :: cs)
    (hc : Commands L cs s c t cs') : Phase { t with ui := cs' } := by
  cases h with
  | playing hp h =>
    rw [hui, List.forall_mem_cons] at hp
    obtain ⟨rfl, h⟩ := Phase.playing_step h hH hc hp.1
    exact .playing hp.2 h
  | stopping k hk hk' hx h =>
    have hcl : c :: cs = closeFrom k := hui.symm.trans hk'
    have hcs := hc.closeFrom hcl
    rcases Nat.lt_or_eq_of_le hk with hlt | rfl
    · have hp : c.plays = true := by
        have hh := congrArg List.head? hcl
        interval_cases k <;> (obtain rfl := Option.some.inj hh; rfl)
      refine .stopping (k + 1) hlt hcs (fun h4 => ?_) (Phase.playing_step h hH hc hp).2
      show (t.flags _).isExit = true
      have hh := congrArg List.head? hcl
      rw [hc.flags]
      have hk : k = 3 ∨ k = 4 ∨ k = 5 := by omega
      rcases hk with rfl | rfl | rfl <;> obtain rfl := Option.some.inj hh <;> simp only [Cmd.flags, writeExit_isExit]
      · rfl
      · exact hx (by omega)
      · exact hx (by omega)
    · obtain rfl : c = .clear .video := Option.some.inj (congrArg List.head? hcl)
      cases hc with
      | clear hm =>
        refine .clearing 7 le_rfl (by omega) hcs (hx (by omega)) fun n => ?_
        -- nobody is between `lock` and `unlock`
        show (s.decW .video n).decoding = false
        by_contra hdec
        have hlock := DecPc.locked_of_decoding (by simpa using hdec)
        rw [(hH.holder .video n).mpr hlock] at hm
        cases hm
  | clearing k h7 hk hk' hx h =>
    have hcl : c :: cs = closeFrom k := hui.symm.trans hk'
    have hcs := hc.closeFrom hcl
    have hh := congrArg List.head? hcl
    rcases Nat.lt_or_eq_of_le hk with hlt | rfl
    · refine .clearing (k + 1) (by omega) hlt hcs ?_ ?_
      · show (t.flags _).isExit = true
        rw [hc.flags]
        interval_cases k <;> (obtain rfl := Option.some.inj hh; exact hx)
      · show ∀ n, (t.decW .video n).decoding = false
        interval_cases k <;> (obtain rfl := Option.some.inj hh; cases hc; exact h)
    · obtain rfl : c = .free .video := Option.some.inj hh
      cases hc
      exact .freed 14 le_rfl hcs ⟨congrArg FFDecode.codec (s.setDec_self ..), fun n => DecPc.passing_decoding (h n)⟩
  | freed k hk hk' h =>
    have hcl : c :: cs = closeFrom k := hui.symm.trans hk'
    have hlt : k ≤ 18 := by
      by_contra hlt
      rw [closeFrom, List.drop_eq_nil_of_le (by show 19 ≤ k; omega)] at hcl
      cases hcl
    refine .freed (k + 1) (by omega) (hc.closeFrom hcl) ?_
    have hh := congrArg List.head? hcl
    have hset : ∀ D : FFDecode K, ((s.setDec .audio D).dec .video) = s.dec .video := fun D =>
      s.setDec_ne D (by decide)
    interval_cases k <;> obtain rfl := Option.some.inj hh <;> cases hc
    · exact h.of_eq (fun _ => rfl) (congrArg FFDecode.codec (hset (s.dec .audio).clear))
    · exact h.of_eq (fun _ => rfl) (congrArg FFDecode.codec (hset (s.dec .audio).free))
    · exact h.of_eq (fun _ => rfl) rfl
    · exact h.of_eq (fun _ => rfl) rfl
    · exact h.of_eq (fun _ => rfl) rfl

end Player

/-- The conditions of the runs: no `Open` and no `Seek`, and the positions of the audio that are handed out
are positive and do not decrease. -/
def Playing (a : Act) (s : Player K) : Prop :=
  match a with
  | .request c => c.kind ≠ .open ∧ c.kind ≠ .seek
  | .call => s.call = some .section → ∀ x ∈ s.audio.frames.head?,
    0 < x.pts ∧ ∀ y ∈ lastPlayed s.log, y.pts ≤ x.pts
  | _ => True

instance (a : Act) (s : Player K) : Decidable (Playing a s) := by
  unfold Playing
  split <;> infer_instance

namespace Player
variable {s s' t : Player K}

theorem Phase.step {a : Act} (h : Phase s) (hH : Holds s) (ha : Playing a s) (hs : Steps L s a t) : Phase t := by
  by_cases hui : a = .ui
  · subst hui
    cases hs with
    | ui hui hc => exact h.command hH hui hc
  · by_cases hr : ∃ c, a = .request c
    · obtain ⟨c, rfl⟩ := hr
      obtain ⟨ho, hsk⟩ := ha
      cases hs with
      | request hui =>
        have hkeep : Shown s ∨ Dead s → Phase { s.emit (.called c.kind) with ui := c.program } := by
          intro h
          have h' : Shown { s.emit (.called c.kind) with ui := c.program } ∨
              Dead { s.emit (.called c.kind) with ui := c.program } :=
            h.imp (fun h => h.of_eq (fun _ => rfl) rfl rfl) fun h => h.of_eq (fun _ => rfl) rfl
          rcases c.program_plays ho hsk with hp | hp
          · exact .stopping 0 (by omega) hp (fun h4 => absurd h4 (by omega)) h'
          · exact .playing hp h'
        cases h with
        | playing _ h => exact hkeep h
        | stopping k hk hk' _ h => exact hkeep h
        | clearing k h7 hk hk' =>
          have hlen := congrArg List.length (hui.symm.trans hk')
          have hlen : 0 = 19 - k := by simpa [closeFrom, closeCmds] using hlen
          omega
        | freed k hk hk' h => exact hkeep (.inr h)
    · exact h.worker hH hs hui fun c he => hr ⟨c, he⟩

/-! ### The position of the audio -/

structure Led (s : Player K) : Prop where
  holds : Holds s
  video : (s.dec .video).isAudio = false
  timed : Timed s
  rising : Rising (s.log.filterMap Event.played)
  /-- `synPts` is a position that `GetData` has stored. -/
  synPts : (s.dec .video).synPts ≤ s.audio.pts ∧ 0 ≤ s.audio.pts
  phase : Phase s

/-- The stored position is not ahead of the last buffer handed out. -/
theorem Timed.pts_le (h : Timed s) (hr : Rising (s.log.filterMap Event.played)) (hp : 0 < s.audio.pts) :
    ∃ y ∈ lastPlayed s.log, s.audio.pts ≤ y.pts := by
  obtain ⟨stored, h1, h2⟩ := h
  rcases stored with _ | ⟨x, stored⟩
  · rw [h2] at hp
    exact absurd hp (lt_irrefl 0)
  · have hx : s.audio.pts = x.pts := h2
    unfold lastPlayed
    rw [h1] at hr ⊢
    generalize s.taken = taken at hr ⊢
    rcases taken with _ | y
    · exact ⟨x, rfl, hx.le⟩
    · refine ⟨y, rfl, ?_⟩
      rw [hx]
      exact (List.pairwise_cons.mp hr.2).1 x List.mem_cons_self

/-- A frame that is shown next is not ahead of the audio if the gate is open. -/
theorem Led.behind (h : Led s) (hs : 0 < (s.dec .video).synPts)
    (hp : ∀ f ∈ lastShown s.log, f.pts ≤ (s.dec .video).synPts) : Behind s.log := by
  intro f hf
  obtain ⟨y, hy, hle⟩ := h.timed.pts_le h.rising (hs.trans_le h.synPts.1)
  exact ⟨y, hy, ((hp f hf).trans h.synPts.1).trans hle⟩

theorem rising_call {pc : CallPc} (h : Rising (s.log.filterMap Event.played))
    (ha : pc = .section → ∀ x ∈ s.audio.frames.head?, 0 < x.pts ∧ ∀ y ∈ lastPlayed s.log, y.pts ≤ x.pts) :
    Rising (((callEvent s.audio pc).toList ++ s.log).filterMap Event.played) := by
  rw [List.filterMap_append]
  cases pc with
  | «section» =>
    rcases hf : s.audio.frames with _ | ⟨x, rest⟩
    · simpa [callEvent, hf] using h
    · obtain ⟨hx, hy⟩ := ha rfl x (by rw [hf]; rfl)
      simp only [callEvent, hf]
      refine ⟨List.forall_mem_cons.mpr ⟨hx, h.1⟩, List.pairwise_cons.mpr ⟨fun z hz => ?_, h.2⟩⟩
      -- the newest of the others is the greatest
      rcases hl : s.log.filterMap Event.played with _ | ⟨y, l⟩
      · have hz : z ∈ s.log.filterMap Event.played := hz
        rw [hl] at hz
        cases hz
      · have hyx := hy y (by unfold lastPlayed; rw [hl]; rfl)
        have hz : z ∈ s.log.filterMap Event.played := hz
        rw [hl] at hz h
        rcases List.mem_cons.mp hz with rfl | hz
        · exact hyx
        · exact ((List.pairwise_cons.mp h.2).1 z hz).trans hyx
  | _ => exact h

/-- `synPts` is changed by `Clear` and by `IPlayer::Main` alone. -/
theorem Commands.synPts {c : Cmd} {cs cs' : List Cmd} (h : Commands L cs s c t cs')
    (hc : c.plays = true ∨ ∃ k, c :: cs = XPlayer.closeFrom k) :
    (t.dec .video).synPts = (s.dec .video).synPts ∨ c = .clear .video ∧ (t.dec .video).synPts = 0 := by
  have hset : ∀ (d : Dec) (D : FFDecode K), D.synPts = (s.dec d).synPts →
      ((s.setDec d D).dec .video).synPts = (s.dec .video).synPts := fun _ _ hD =>
    setDec_congr FFDecode.synPts s hD .video
  have hcalm : c.plays = true ∨ c.calm = true ∧ ∀ pos f pc, c ≠ .seek pos f pc :=
    hc.imp_right fun ⟨k, hk⟩ => ⟨(closeFrom_cons hk).1, (closeFrom_cons hk).2.2.1⟩
  cases h with
  | @clear d =>
    cases d with
    | video => exact .inr ⟨rfl, congrArg FFDecode.synPts (s.setDec_self .video (s.dec .video).clear)⟩
    | audio =>
      have he : (s.setDec .audio (s.dec .audio).clear).dec .video = s.dec .video := s.setDec_ne _ nofun
      exact .inl (congrArg FFDecode.synPts he)
  | @flush d => exact .inl (hset d _ rfl)
  | @free d => exact .inl (hset d _ rfl)
  | @spawn o => cases o <;> exact .inl rfl
  | lock | unlock | exit | pause | clearFrames | closeDemux | ret => exact .inl rfl
  | seek | sought =>
    rcases hcalm with hp | ⟨-, hne⟩
    · cases hp
    · exact absurd rfl (hne _ _ _)
  | _ => rcases hcalm with hp | ⟨hp, -⟩ <;> cases hp

theorem Phase.head (h : Phase s) {c : Cmd} {cs : List Cmd} (hui : s.ui = c :: cs) :
    c.plays = true ∨ ∃ k, c :: cs = closeFrom k := by
  cases h with
  | playing hp =>
    rw [hui, List.forall_mem_cons] at hp
    exact .inl hp.1
  | stopping k _ hk => exact .inr ⟨k, hui.symm.trans hk⟩
  | clearing k _ _ hk => exact .inr ⟨k, hui.symm.trans hk⟩
  | freed k _ hk => exact .inr ⟨k, hui.symm.trans hk⟩

theorem step_video {a : Act} (hv : (s.dec .video).isAudio = false) (h : s.step L a = some t) :
    (t.dec .video).isAudio = false := by
  by_cases hui : a = .ui
  · subst hui
    simp only [step, uiStep] at h
    split at h
    · cases h
    · exact cmdStep_video h hv
  · cases steps h with
    | demux hd => exact (congrArg FFDecode.isAudio (hd.dec_fields .video) :).trans hv
    | dec hd => exact (congrArg FFDecode.isAudio (hd.dec_fields .video) :).trans hv
    | ui => exact absurd rfl hui
    | _ => exact hv

theorem callStep_pts {x p : Bool} {a : IAudioPlay} (pc : CallPc) :
    (callStep x p a pc).1.pts = a.pts ∨ ∃ y, pc = .got y ∧ (callStep x p a pc).1.pts = y.pts := by
  cases pc with
  | got y => exact .inr ⟨y, rfl, rfl⟩
  | «section» =>
    rcases hf : a.frames with _ | ⟨y, rest⟩ <;> exact .inl (by simp [callStep, hf])
  | _ => exact .inl rfl

/-- The stored position does not decrease. -/
theorem Timed.pts_mono (h : Timed s) (hr : Rising (s.log.filterMap Event.played)) {a : Act}
    (hs : Steps L s a t) : s.audio.pts ≤ t.audio.pts := by
  by_cases ha : a = .call
  · subst ha
    cases hs with
    | @call pc hpc =>
      rcases callStep_pts (x := s.isExit .audioPlay) (p := s.isPause .audioPlay) (a := s.audio) pc with
        he | ⟨y, rfl, he⟩
      · exact he.ge
      · have htk : s.taken = some y := by simp [taken, hpc]
        obtain ⟨stored, h1, h2⟩ := h
        rw [h1, htk] at hr
        refine le_of_le_of_eq ?_ he.symm
        rw [h2]
        rcases stored with _ | ⟨z, stored⟩
        · exact (hr.1 y List.mem_cons_self).le
        · exact (List.pairwise_cons.mp hr.2).1 z List.mem_cons_self
  · exact (hs.played ha).2.2.ge

theorem Led.step {a : Act} (h : Led s) (ha : Playing a s) (hs : s.step L a = some t) : Led t := by
  have hst := steps hs
  have hmono := h.timed.pts_mono h.rising hst
  refine ⟨h.holds.step hst, step_video h.video hs, h.timed.step hst, ?_, ⟨?_, h.synPts.2.trans hmono⟩,
    h.phase.step h.holds ha hst⟩
  · by_cases hc : a = .call
    · subst hc
      cases hst with
      | call hpc => exact rising_call h.rising fun he => ha (he ▸ hpc)
    · rw [(hst.played hc).1]
      exact h.rising
  · by_cases hui : a = .ui
    · subst hui
      cases hst with
      | ui hui hc =>
        rcases hc.synPts (h.phase.head hui) with he | ⟨-, he⟩
        · exact he.le.trans (h.synPts.1.trans hmono)
        · exact he.le.trans (h.synPts.2.trans hmono)
    · have hle : (t.dec .video).synPts = (s.dec .video).synPts ∨ (t.dec .video).synPts = s.audio.pts := by
        cases hst with
        | demux hd => exact .inl (hd.synPts .video)
        | dec hd => exact .inl (hd.synPts .video)
        | sync => exact .inr rfl
        | ui => exact absurd rfl hui
        | _ => exact .inl rfl
      rcases hle with he | he
      · exact he.le.trans (h.synPts.1.trans hmono)
      · exact he.le.trans hmono

/-! ### The frames of one packet -/

/-- The number of frames shown. -/
def shownCount (s : Player K) : ℕ := (s.log.filterMap Event.shown).length

theorem lastPlayed_mono {a : Act} (hs : Steps L s a t) (hr : Rising (t.log.filterMap Event.played)) {y : XData}
    (hy : y ∈ lastPlayed s.log) : ∃ z ∈ lastPlayed t.log, y.pts ≤ z.pts := by
  by_cases ha : a = .call
  · subst ha
    cases hs with
    | @call pc hpc =>
      have hr : Rising (((callEvent s.audio pc).toList ++ s.log).filterMap Event.played) := hr
      show ∃ z ∈ lastPlayed ((callEvent s.audio pc).toList ++ s.log), y.pts ≤ z.pts
      unfold lastPlayed at hy ⊢
      rw [List.filterMap_append] at hr ⊢
      rcases hl : s.log.filterMap Event.played with _ | ⟨w, l⟩ <;> rw [hl] at hy hr
      · cases hy
      · cases hy
        generalize (callEvent s.audio pc).toList.filterMap Event.played = new at hr ⊢
        rcases new with _ | ⟨z, l'⟩
        · exact ⟨y, rfl, le_rfl⟩
        · exact ⟨z, rfl, (List.pairwise_cons.mp hr.2).1 y (List.mem_append_right _ List.mem_cons_self)⟩
  · exact ⟨y, by unfold lastPlayed; rw [(hs.played ha).1]; exact hy, le_rfl⟩

/-- While a worker is between `lock` and `unlock`, `synPts` does not decrease. -/
theorem Led.synPts_mono (h : Led s) {n : ℕ} (hn : (s.decW .video n).locked = true) {a : Act}
    (hs : Steps L s a t) : (s.dec .video).synPts ≤ (t.dec .video).synPts := by
  cases hs with
  | demux hd => exact (hd.synPts .video).ge
  | dec hd => exact (hd.synPts .video).ge
  | sync => exact h.synPts.1
  | ui hui hc =>
    rcases hc.synPts (h.phase.head hui) with he | ⟨rfl, -⟩
    · exact he.ge
    · cases hc with
      | clear hm =>
        rw [(h.holds.holder .video n).mpr hn] at hm
        cases hm
  | _ => exact le_rfl

theorem Commands.other {c : Cmd} {cs cs' : List Cmd} (hc : Commands L cs s c t cs')
    (hp : c.plays = true ∨ ∃ k, c :: cs = XPlayer.closeFrom k) (hH : Holds s) {n : ℕ}
    (hn : (s.decW .video n).locked = true) : t.decW .video n = s.decW .video n ∧
      t.log.filterMap Event.shown = s.log.filterMap Event.shown ∧
        ((t.dec .video).pts = (s.dec .video).pts ∨ (t.dec .video).pts = 0) := by
  have hset : ∀ (d : Dec) (D : FFDecode K), D.pts = (s.dec d).pts ∨ D.pts = 0 →
      ((s.setDec d D).dec .video).pts = (s.dec .video).pts ∨ ((s.setDec d D).dec .video).pts = 0 := by
    intro d D hD
    cases d with
    | video =>
      rw [setDec_self]
      exact hD
    | audio => exact .inl (congrArg FFDecode.pts (s.setDec_ne D nofun))
  have hcalm : c.plays = true ∨ c.calm = true ∧ ∀ pos f pc, c ≠ .seek pos f pc :=
    hp.imp_right fun ⟨k, hk⟩ => ⟨(closeFrom_cons hk).1, (closeFrom_cons hk).2.2.1⟩
  cases hc with
  | @spawn o =>
    cases o with
    | dec d =>
      refine ⟨?_, rfl, .inl rfl⟩
      show (s.setDecW d (s.decN d) .exitTest).decW .video n = _
      rw [setDecW_decW, if_neg]
      rintro ⟨rfl, rfl⟩
      rw [hH.gone _ _ le_rfl] at hn
      cases hn
    | _ => exact ⟨rfl, rfl, .inl rfl⟩
  | @clear d =>
    exact ⟨rfl, (emit_log rfl).trans (emptied_log (fun _ _ => rfl) d), hset d (s.dec d).clear (.inr rfl)⟩
  | @flush d => exact ⟨rfl, rfl, hset d _ (.inl rfl)⟩
  | @free d => exact ⟨rfl, rfl, hset d _ (.inr rfl)⟩
  | clearFrames => exact ⟨rfl, clearFrames_log fun _ => rfl, .inl rfl⟩
  | lock | unlock | exit | pause | closeDemux | ret => exact ⟨rfl, rfl, .inl rfl⟩
  | seek | sought =>
    rcases hcalm with hp | ⟨-, hne⟩
    · cases hp
    · exact absurd rfl (hne _ _ _)
  | _ => rcases hcalm with hp | ⟨hp, -⟩ <;> cases hp

/-- What the step of another thread does to `pts` and the frames shown while the worker `n` is between `lock`
and `unlock`. -/
theorem Led.other (h : Led s) {n : ℕ} (hn : (s.decW .video n).locked = true) {a : Act} (ha : a ≠ .dec .video n)
    (hs : Steps L s a t) : t.decW .video n = s.decW .video n ∧
      t.log.filterMap Event.shown = s.log.filterMap Event.shown ∧
        ((t.dec .video).pts = (s.dec .video).pts ∨ (t.dec .video).pts = 0) := by
  cases hs with
  | @demux m t pc hd =>
    have hW : t.decW = s.decW := (congrArg Player.decW hd.eq :)
    exact ⟨congrFun (congrFun hW _) _, (hd.log_eq shown_moves :),
      .inl (congrArg FFDecode.pts (hd.dec_fields .video) :)⟩
  | @dec d m t pc hd =>
    have hW : t.decW = s.decW := (congrArg Player.decW hd.eq :)
    have hne : ¬ (Dec.video = d ∧ n = m) := by
      rintro ⟨rfl, rfl⟩
      exact ha rfl
    refine ⟨?_, ?_⟩
    · rw [setDecW_decW, if_neg hne, hW]
    · cases d with
      | video =>
        have hout : (s.decW .video m).locked = false := by
          by_contra hm
          exact hne ⟨rfl, h.holds.alone hn (by simpa using hm)⟩
        have hp := (h.holds.holder .video n).mpr hn
        show t.log.filterMap Event.shown = _ ∧ ((t.dec .video).pts = _ ∨ (t.dec .video).pts = _)
        generalize s.decW .video m = pc₀ at hd hout
        cases hd with
        | pop hm =>
          rw [hp] at hm
          cases hm
        | exit | more | paused | run | shut | empty => exact ⟨rfl, .inl rfl⟩
        | _ => cases hout
      | audio =>
        refine ⟨?_, .inl (congrArg FFDecode.pts (hd.dec_other nofun))⟩
        show t.log.filterMap Event.shown = _
        generalize s.decW .audio m = pc₀ at hd
        cases hd with
        | «show» hd => cases hd
        | _ => rfl
  | @call pc hpc =>
    refine ⟨rfl, ?_, .inl rfl⟩
    simp only [List.filterMap_append]
    rw [callEvent_log (fun _ => rfl) fun _ => rfl]
    rfl
  | ui hui hc => exact (hc.other (h.phase.head hui) h.holds hn :)
  | _ => exact ⟨rfl, rfl, .inl rfl⟩

/-- The worker `n` decodes a packet that it has popped while `synPts` was positive and `m` frames had been
shown. -/
structure Decoding (n m : ℕ) (s : Player K) : Prop where
  synPts : 0 < (s.dec .video).synPts
  count : m ≤ s.shownCount
  /-- Nothing of the packet has been received yet: the gate is open. -/
  first : s.shownCount = m → (s.decW .video n).passing = none → (s.dec .video).pts ≤ (s.dec .video).synPts
  passing : (s.decW .video n).passing ≠ none → Behind s.log

end Player

/-- The condition: when the worker `n` receives a frame after it has shown one of the same packet, the gate is
open. `m` is the number of frames that were shown before it popped the packet. -/
def GateOpen (L : FFmpeg K) (n m : ℕ) (a : Act) (s : Player K) : Prop :=
  match a with
  | .dec .video k =>
    match s.decW .video k with
    | .recv _ => k = n → m < s.shownCount → ((s.dec .video).recvFrame L).1.data ≠ .null →
      (s.dec .video).pts ≤ (s.dec .video).synPts
    | _ => True
  | _ => True

instance (n m : ℕ) (a : Act) (s : Player K) : Decidable (GateOpen L n m a s) := by
  unfold GateOpen
  split
  · split <;> infer_instance
  · infer_instance

namespace Player
variable {s s' t : Player K} {n m : ℕ}

/-- A receive: the last frame is not ahead of the audio. -/
theorem Decoding.recv (hD : Decoding n m s) (h : Led s) {x : XData} (hpc : s.decW .video n = .recv x)
    (hr : ((s.dec .video).recvFrame L).1.data ≠ .null)
    (ha : m < s.shownCount → (s.dec .video).pts ≤ (s.dec .video).synPts) : Behind s.log := by
  have hnone : ∀ k, (s.decW .video k).passing = none := by
    intro k
    rw [Option.eq_none_iff_forall_not_mem]
    intro f hf
    obtain rfl := h.holds.alone (DecPc.passing_locked hf) (n := n) (by rw [hpc]; rfl)
    rw [hpc] at hf
    cases hf
  have hgate : (s.dec .video).pts ≤ (s.dec .video).synPts := by
    rcases Nat.lt_or_eq_of_le hD.count with hlt | he
    · exact ha hlt
    · exact hD.first he.symm (hnone n)
  have hshown : Shown s := by
    rcases h.phase with ⟨-, hs | hs⟩ | ⟨k, -, -, -, hs | hs⟩ | ⟨k, -, -, -, -, hs⟩ | ⟨k, -, -, hs⟩
    · exact hs
    · exact absurd (recvFrame_none hs.codec).1 hr
    · exact hs
    · exact absurd (recvFrame_none hs.codec).1 hr
    · have hd := hs n
      rw [hpc] at hd
      cases hd
    · exact absurd (recvFrame_none hs.codec).1 hr
  exact h.behind hD.synPts fun f hf => (hshown.last hnone f hf).le.trans hgate

theorem Decoding.step {a : Act} (hD : Decoding n m s) (h : Led s) (hn : (s.decW .video n).locked = true)
    (ha : GateOpen L n m a s) (hs : Steps L s a t) (ht : Led t) (htn : (t.decW .video n).locked = true) :
    Decoding n m t := by
  have hsyn := h.synPts_mono hn hs
  have hbehind : t.log.filterMap Event.shown = s.log.filterMap Event.shown → Behind s.log → Behind t.log := by
    intro hl hb f hf
    unfold lastShown at hf
    rw [hl] at hf
    obtain ⟨y, hy, hle⟩ := hb f hf
    obtain ⟨z, hz, hle'⟩ := lastPlayed_mono hs ht.rising hy
    exact ⟨z, hz, hle.trans hle'⟩
  have hkeep : (t.decW .video n).passing = (s.decW .video n).passing →
      t.log.filterMap Event.shown = s.log.filterMap Event.shown →
      ((t.dec .video).pts = (s.dec .video).pts ∨ (t.dec .video).pts = 0) → Decoding n m t := by
    intro hp hl hpts
    have hc : t.shownCount = s.shownCount := congrArg List.length hl
    refine ⟨hD.synPts.trans_le hsyn, hc ▸ hD.count, fun he hp' => ?_, fun hp' => ?_⟩
    · rcases hpts with hpts | hpts
      · rw [hpts]
        exact (hD.first (hc ▸ he) (hp ▸ hp')).trans hsyn
      · rw [hpts]
        exact (hD.synPts.trans_le hsyn).le
    · exact hbehind hl (hD.passing (hp ▸ hp'))
  by_cases hact : a = .dec .video n
  · subst hact
    cases hs with
    | @dec _ _ t pc hd =>
      have hW : (t.setDecW .video n pc).decW .video n = pc := by rw [setDecW_decW, if_pos ⟨rfl, rfl⟩]
      rw [hW] at hkeep htn
      obtain ⟨pc₀, hpc⟩ : ∃ pc₀, s.decW .video n = pc₀ := ⟨_, rfl⟩
      rw [hpc] at hd hn hkeep
      cases hd with
      | exit | more | paused | run | shut | empty | pop => cases hn
      | @sent x | @unsent x =>
        exact hkeep rfl rfl (.inl ((congrArg FFDecode.pts (s.setDec_self ..)).trans (sendPacket_pts ..)))
      | drained hr =>
        exact hkeep rfl rfl (.inl ((congrArg FFDecode.pts (s.setDec_self ..)).trans (recvFrame_null hr)))
      | @recv x hr =>
        refine ⟨hD.synPts.trans_le hsyn, hD.count, fun _ hp => ?_, fun _ => hD.recv h hpc hr fun hlt => ?_⟩
        · rw [hW] at hp
          cases hp
        · simp only [GateOpen, hpc] at ha
          exact ha trivial hlt hr
      | «show» =>
        refine ⟨hD.synPts.trans_le hsyn, Nat.le_succ_of_le hD.count, fun he _ => ?_, fun hp => ?_⟩
        · -- a frame of the packet has been shown
          have he : s.shownCount + 1 = m := he
          have hle := hD.count
          omega
        · rw [hW] at hp
          exact absurd rfl hp
      | drop => cases htn
      | notify hd => cases hd
      | _ => exact hkeep rfl rfl (.inl rfl)
  · obtain ⟨hW, hl, hpts⟩ := h.other hn hact hs
    exact hkeep (congrArg _ hW) hl hpts

/-- The gate: the packet that a worker pops while `synPts` is positive. -/
theorem Decoding.pop (h : Led s) (hs : s.step L (.dec .video n) = some t) (hpc : s.decW .video n = .lock)
    (ht : (t.decW .video n).locked = true) (h0 : 0 < (s.dec .video).synPts) : Decoding n s.shownCount t := by
  cases steps hs with
  | @dec _ _ t pc hd =>
    have hW : (t.setDecW .video n pc).decW .video n = pc := by rw [setDecW_decW, if_pos ⟨rfl, rfl⟩]
    rw [hW] at ht
    rw [hpc] at hd
    cases hd with
    | @pop x rest hm hg =>
      have hdec : ((s.popped .video n x rest).setDecW .video n (.send x)).dec .video =
          { s.dec .video with packs := rest } := s.setDec_self .video { s.dec .video with packs := rest }
      have hgate : (s.dec .video).pts ≤ (s.dec .video).synPts := by
        simp only [gateClosed, h.video, h0] at hg
        simpa using hg
      refine ⟨?_, le_rfl, fun _ _ => ?_, fun hp => ?_⟩
      · rw [hdec]
        exact h0
      · rw [hdec]
        exact hgate
      · rw [hW] at hp
        exact absurd rfl hp
    | _ => cases ht

end Player

/-! ### A player that has been opened -/

/-- The controller alone, with no other call than `Open`. -/
def Opening (a : Act) (_ : Player K) : Prop :=
  match a with
  | .ui => True
  | .request c => c.kind = .open
  | _ => False

instance (a : Act) (s : Player K) : Decidable (Opening a s) := by
  unfold Opening
  split <;> infer_instance

/-- The commands of `Open`. -/
def Cmd.opens : Cmd → Bool
  | .spawn _ | .seek .. => false
  | _ => true

theorem Call.program_opens (c : Call) (h : c.kind = .open) : ∀ b ∈ c.program, b.opens = true := by
  cases c with
  | «open» => simp [Call.program, closeCmds, openCmds, Cmd.opens]
  | _ => cases h

namespace Player
variable {s s' t : Player K}

/-- Nothing has been started or played. -/
structure Fresh (s : Player K) : Prop where
  gone : ∀ d n, s.decW d n = .gone
  packsMutex : ∀ d, s.packsMutex d = none
  call : s.call = none
  pts : s.audio.pts = 0
  synPts : (s.dec .video).synPts = 0
  played : s.log.filterMap Event.played = []
  shown : s.log.filterMap Event.shown = []
  program : ∀ c ∈ s.ui, c.opens = true

theorem played_moves (e : Event) (h : e.moves = true) : e.played = none := by
  cases e <;> first | rfl | cases h

theorem Fresh.command (h : Fresh s) {c : Cmd} {cs cs' : List Cmd} (hui : s.ui = c :: cs)
    (hc : Commands L cs s c t cs') : Fresh { t with ui := cs' } := by
  have hop := h.program
  rw [hui, List.forall_mem_cons] at hop
  obtain ⟨hcall, hpts⟩ := hc.clock
  have hset : ∀ (d : Dec) (D : FFDecode K), D.synPts = (s.dec d).synPts ∨ D.synPts = 0 →
      ((s.setDec d D).dec .video).synPts = 0 := by
    intro d D hD
    cases d with
    | video =>
      rw [setDec_self]
      exact hD.elim (fun he => he.trans h.synPts) id
    | audio =>
      have he : (s.setDec .audio D).dec .video = s.dec .video := s.setDec_ne D nofun
      exact (congrArg FFDecode.synPts he).trans h.synPts
  refine ⟨?_, ?_, hcall.trans h.call, hpts.trans h.pts, ?_, (hc.log_keep played_moves fun _ _ => rfl).trans h.played,
    (hc.log_keep shown_moves fun _ _ => rfl).trans h.shown, ?_⟩
  · cases hc with
    | spawn | seek | sought => cases hop.1
    | _ => exact h.gone
  · cases hc with
    | spawn | seek | sought => cases hop.1
    | _ => exact h.packsMutex
  · cases hc with
    | spawn | seek | sought => cases hop.1
    | @clear d => exact hset d (s.dec d).clear (.inr rfl)
    | @flush d => exact hset d _ (.inl rfl)
    | @free d => exact hset d _ (.inl rfl)
    | @openDec d o =>
      refine hset d _ (.inl ?_)
      unfold FFDecode.open
      split <;> rfl
    | _ => exact h.synPts
  · show ∀ b ∈ cs', b.opens = true
    cases hc with
    | spawn | seek | sought => cases hop.1
    | openFailed => exact fun b hb => by simp at hb; rcases hb with rfl | rfl <;> rfl
    | _ => exact hop.2

theorem Fresh.step {a : Act} (h : Fresh s) (ha : Opening a s) (hs : Steps L s a t) : Fresh t := by
  cases hs with
  | ui hui hc => exact h.command hui hc
  | @request c hui =>
    exact ⟨h.gone, h.packsMutex, h.call, h.pts, h.synPts, h.played, h.shown, c.program_opens ha⟩
  | _ => cases ha

theorem Fresh.led (h : Fresh s) (hv : (s.dec .video).isAudio = false) (hui : s.ui = []) : Led s := by
  have htk : s.taken = none := by simp [taken, h.call]
  refine ⟨⟨fun d n _ => h.gone d n, fun d n => ?_⟩, hv, ⟨[], ?_, h.pts⟩, ?_, ?_, .playing ?_ (.inl ⟨?_, ?_⟩)⟩
  · rw [h.packsMutex, h.gone]
    exact ⟨fun he => (by cases he), fun he => (by cases he)⟩
  · rw [h.played, htk]
    rfl
  · rw [h.played]
    exact ⟨fun x hx => absurd hx List.not_mem_nil, .nil⟩
  · rw [h.synPts, h.pts]
    exact ⟨le_rfl, le_rfl⟩
  · rw [hui]
    exact fun c hc => absurd hc List.not_mem_nil
  · intro n f hf
    rw [h.gone] at hf
    cases hf
  · intro _ f hf
    unfold lastShown at hf
    rw [h.shown] at hf
    cases hf

end Player

/-- In a run of a player that has been opened: when a worker of the video decoder passes on a frame of a packet
that it popped while `synPts` was positive, the frame before is not ahead of the audio, if the gate was open at
each further receive. -/
theorem video_leads (L : FFmpeg K) {s₀ s₁ s₂ s₃ : Player K} {n : ℕ} {f : XData}
    (h₀ : (player L).Reach Opening s₀) (hui : s₀.ui = []) (h₁ : (player L).Run Playing s₀ s₁)
    (hsyn : 0 < (s₁.dec .video).synPts) (hlock : s₁.decW .video n = .lock)
    (hpop : (player L).step (.dec .video n) s₁ = some s₂) (htake : (s₂.decW .video n).locked = true)
    (h₂ : (player L).Run (fun a s => Playing a s ∧ (s.decW .video n).locked = true ∧ GateOpen L n s₁.shownCount a s)
      s₂ s₃)
    (hf : (s₃.decW .video n).passing = some f) : Behind s₃.log := by
  have hF : s₀.Fresh ∧ (s₀.dec .video).isAudio = false := by
    refine h₀.inv (I := fun s => s.Fresh ∧ (s.dec .video).isAudio = false) ?_ fun a s t hI ha hs =>
      ⟨hI.1.step ha (Player.steps hs), Player.step_video hI.2 hs⟩
    rintro _ ⟨total, rfl⟩
    exact ⟨⟨fun _ _ => rfl, fun _ => rfl, rfl, rfl, rfl, rfl, rfl, fun c hc => absurd hc List.not_mem_nil⟩, rfl⟩
  have hL : s₁.Led := h₁.inv (hF.1.led hF.2 hui) fun a s t h ha hs => h.step ha hs
  have hI : s₃.Led ∧ ((s₃.decW .video n).locked = true → s₃.Decoding n s₁.shownCount) := by
    refine h₂.inv (I := fun s => s.Led ∧ ((s.decW .video n).locked = true → s.Decoding n s₁.shownCount))
      ⟨hL.step (a := .dec .video n) trivial hpop, fun _ => Player.Decoding.pop hL hpop hlock htake hsyn⟩
      fun a s t hI ha hs => ?_
    have ht := hI.1.step ha.1 hs
    exact ⟨ht, (hI.2 ha.2.1).step hI.1 ha.2.1 ha.2.2 (Player.steps hs) ht⟩
  exact (hI.2 (DecPc.passing_locked hf)).passing (by rw [hf]; nofun)

/-- `Open` of a file with an audio packet at `apts` and a video packet with the frames `frames`. -/
def openGated (apts : ℤ) (frames : List UInt8) : List Act :=
  .request (.open (.opened ⟨avFile, [⟨1, apts, apts, [0]⟩, ⟨0, 0, 0, frames⟩]⟩) .opened .opened true) ::
    List.replicate 32 .ui

theorem openGated_opening (apts : ℤ) (frames : List UInt8) :
    ∀ a ∈ openGated apts frames, ∀ s : Player (List AVFrame), Opening a s := by
  intro a ha s
  simp only [openGated, List.mem_cons, List.mem_replicate] at ha
  rcases ha with rfl | ⟨-, rfl⟩
  · rfl
  · trivial

/-- The audio packet is played and its position stored; the video decoder is about to pop its packet. -/
def playGated : List Act :=
  .request (.start true) :: List.replicate 17 .ui ++ List.replicate 16 (.demux 0) ++
    List.replicate 13 (.dec .audio 0) ++ .device :: List.replicate 4 .call ++ List.replicate 2 (.sync 0) ++
      List.replicate 2 (.dec .video 0)

set_option maxRecDepth 4000 in
/-- A packet with two frames, the first of which is not ahead of the audio. -/
theorem video_leads_two : ∃ s : Player (List AVFrame), (lastShown s.log).map XData.pts = some 5 ∧ Behind s.log := by
  have hr : (((player bytewise).exec (openGated 100 [5, 40]) { demux := { total := 0 } }).bind fun s₀ =>
      ((player bytewise).execIf Playing playGated s₀).bind fun s₁ =>
        ((player bytewise).step (.dec .video 0) s₁).bind fun s₂ =>
          ((player bytewise).execIf (fun a s => Playing a s ∧ (s.decW .video 0).locked = true ∧
              GateOpen bytewise 0 s₁.shownCount a s) (List.replicate 6 (.dec .video 0)) s₂).map fun s₃ =>
            (s₀.ui.isEmpty && decide (0 < (s₁.dec .video).synPts) && decide (s₁.decW .video 0 = .lock) &&
              (s₂.decW .video 0).locked && (s₃.decW .video 0).passing.isSome, (lastShown s₃.log).map XData.pts)) =
        some (true, some 5) := by decide +kernel
  obtain ⟨s₀, h₀, hr⟩ := Option.bind_eq_some_iff.mp hr
  obtain ⟨s₁, h₁, hr⟩ := Option.bind_eq_some_iff.mp hr
  obtain ⟨s₂, h₂, hr⟩ := Option.bind_eq_some_iff.mp hr
  obtain ⟨s₃, h₃, he⟩ := Option.map_eq_some_iff.mp hr
  simp only [Prod.mk.injEq, Bool.and_eq_true, decide_eq_true_eq, List.isEmpty_iff, Option.isSome_iff_exists] at he
  obtain ⟨⟨⟨⟨⟨hui, hsyn⟩, hlock⟩, htake⟩, f, hf⟩, hl⟩ := he
  exact ⟨s₃, hl, video_leads bytewise ⟨_, ⟨0, rfl⟩, .of_exec (openGated_opening 100 [5, 40]) h₀⟩ hui (.of_execIf h₁)
    hsyn hlock h₂ htake (.of_execIf h₃) hf⟩

set_option maxRecDepth 4000 in
/-- A packet with three frames, the second of which is ahead of the audio when the third is shown. -/
theorem video_ahead : ¬ ∀ (s₀ s₁ s₂ s₃ : Player (List AVFrame)) (f : XData),
    (player bytewise).Reach Opening s₀ → s₀.ui = [] → (player bytewise).Run Playing s₀ s₁ →
    0 < (s₁.dec .video).synPts → s₁.decW .video 0 = .lock → (player bytewise).step (.dec .video 0) s₁ = some s₂ →
    (s₂.decW .video 0).locked = true →
    (player bytewise).Run (fun a s => Playing a s ∧ (s.decW .video 0).locked = true) s₂ s₃ →
    (s₃.decW .video 0).passing = some f → Behind s₃.log := by
  intro h
  have hr : (((player bytewise).exec (openGated 10 [5, 40, 90]) { demux := { total := 0 } }).bind fun s₀ =>
      ((player bytewise).execIf Playing playGated s₀).bind fun s₁ =>
        ((player bytewise).step (.dec .video 0) s₁).bind fun s₂ =>
          ((player bytewise).execIf (fun a s => Playing a s ∧ (s.decW .video 0).locked = true)
              (List.replicate 9 (.dec .video 0)) s₂).map fun s₃ =>
            (s₀.ui.isEmpty && decide (0 < (s₁.dec .video).synPts) && decide (s₁.decW .video 0 = .lock) &&
              (s₂.decW .video 0).locked && (s₃.decW .video 0).passing.isSome, (lastShown s₃.log).map XData.pts,
                (lastPlayed s₃.log).map XData.pts)) = some (true, some 40, some 10) := by decide +kernel
  obtain ⟨s₀, h₀, hr⟩ := Option.bind_eq_some_iff.mp hr
  obtain ⟨s₁, h₁, hr⟩ := Option.bind_eq_some_iff.mp hr
  obtain ⟨s₂, h₂, hr⟩ := Option.bind_eq_some_iff.mp hr
  obtain ⟨s₃, h₃, he⟩ := Option.map_eq_some_iff.mp hr
  simp only [Prod.mk.injEq, Bool.and_eq_true, decide_eq_true_eq, List.isEmpty_iff, Option.isSome_iff_exists,
    Option.map_eq_some_iff] at he
  obtain ⟨⟨⟨⟨⟨hui, hsyn⟩, hlock⟩, htake⟩, f, hf⟩, ⟨g, hg, hg'⟩, y, hy, hy'⟩ := he
  obtain ⟨z, hz, hle⟩ := h s₀ s₁ s₂ s₃ f ⟨_, ⟨0, rfl⟩, .of_exec (openGated_opening 10 [5, 40, 90]) h₀⟩ hui
    (.of_execIf h₁) hsyn hlock h₂ htake (.of_execIf h₃) hf g hg
  rw [hy] at hz
  cases hz
  omega

end XPlayer
