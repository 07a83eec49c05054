import XPlayer.CloseClears

/-!
# Back-pressure of the codec

A codec that buffers its output (`SendRecv.Buffering`) refuses a packet while there is any. `IDecode::Main`
receives until nothing comes after each accepted packet; `Seek` receives once. `Fed` is the invariant:
output is pending only while a worker of `Main` collects it, or while `Seek` is about to receive the only
frame.

`Seek` keeps it under two conditions: the workers are outside of their loop body when it takes the player's
mutex, and no packet it sends yields two frames. `Main` keeps it unless its inner loop ends because of
`isExit` (`back_pressure`).
-/

namespace XPlayer
variable {K : Type} {L : FFmpeg K}

/-- The output of a codec context; one that is missing or not opened has none. -/
def FFmpeg.buffering (B : L.codec.Buffering) : L.machine.Buffering where
  out c := ((c.bind (·.avctx)).map B.out).getD []
  accepted c p h := by
    match c with
    | none => cases h
    | some ⟨t, none⟩ => cases h
    | some ⟨t, some k⟩ => exact B.accepted k p h
  pending c p h := by
    match c with
    | none => exact absurd rfl h
    | some ⟨t, none⟩ => exact absurd rfl h
    | some ⟨t, some k⟩ => exact B.pending k p h
  refused c p h := by
    match c with
    | none => rfl
    | some ⟨t, none⟩ => rfl
    | some ⟨t, some k⟩ => exact B.refused k p h
  recv c := by
    match c with
    | none => exact ⟨rfl, rfl⟩
    | some ⟨t, none⟩ => exact ⟨rfl, rfl⟩
    | some ⟨t, some k⟩ => exact B.recv k
  flush c := by
    match c with
    | none => rfl
    | some ⟨t, none⟩ => rfl
    | some ⟨t, some k⟩ => exact B.flush k

namespace FFDecode
variable (B : L.codec.Buffering) (d : FFDecode K)

/-- The frames that the codec has still to give. -/
def out : List AVFrame := (FFmpeg.buffering B).out d.codec

theorem out_sendPacket {x : XData} (h : (d.sendPacket L x).1 = false) (ho : d.out B = []) :
    (d.sendPacket L x).2.out B = [] := by
  unfold sendPacket at h ⊢
  split
  · exact ho
  · rename_i hx
    rw [if_neg hx] at h
    split
    · exact ho
    · rename_i p hp
      simp only [hp] at h
      exact ((FFmpeg.buffering B).refused _ p h).trans ho

theorem out_recvFrame_null (h : (d.recvFrame L).1.data = .null) : (d.recvFrame L).2.out B = [] := by
  unfold recvFrame at h ⊢
  rcases hr : L.machine.recv d.codec with ⟨_ | f, c⟩ <;> rw [hr] at h
  · have hn := (FFmpeg.buffering B).recv_none (congrArg Prod.fst hr)
    rw [hr] at hn
    exact hn
  · cases h

theorem out_recvFrame_le_one (h : (d.out B).length ≤ 1) : (d.recvFrame L).2.out B = [] := by
  have hn := (FFmpeg.buffering B).recv_le_one h
  unfold recvFrame
  rcases hr : L.machine.recv d.codec with ⟨_ | f, c⟩ <;> rw [hr] at hn <;> exact hn

theorem out_flush : (d.flush L).out B = [] := (FFmpeg.buffering B).flush _

/-- A codec that was just opened has no output. -/
theorem out_open (hB : ∀ p, B.out (L.opened p) = []) (para : XParameter) (o : OpenCodec) (h : d.out B = []) :
    (d.open L para o).out B = [] := by
  unfold FFDecode.open
  split
  · exact h
  · exact h
  · rfl
  · exact hB _

end FFDecode

/-! ### Where output is pending -/

/-- In the inner loop, after an accepted packet and before the receive that comes back empty. -/
def DecPc.collecting : DecPc → Bool
  | .innerExit _ | .recv _ | .notify _ _ | .resample _ _ | .pcmExit _ _ | .pcmSection _ _ => true
  | _ => false

/-- At the test of `isExit` in the inner loop. -/
def DecPc.exiting : DecPc → Bool
  | .innerExit _ => true
  | _ => false

/-- Outside of the loop body. -/
def DecPc.outside : DecPc → Bool
  | .gone | .exitTest | .pauseTest => true
  | _ => false

/-- `Seek` has sent a packet that it is about to receive a frame of. -/
def receiving : List Cmd → Bool
  | .seek _ _ (.drop _ _) :: _ | .seek _ _ (.recv _) :: _ => true
  | _ => false

/-- The packet that `Seek` is about to send. -/
def sending : List Cmd → Option XData
  | .seek _ _ (.send _ x) :: _ => some x
  | _ => none

/-- `Seek` is about to take the player's mutex. -/
def locking : List Cmd → Bool
  | .seek _ _ .lock :: _ => true
  | _ => false

/-- `Seek` has taken the player's mutex. -/
def seeking : List Cmd → Bool
  | .seek _ _ .lock :: _ => false
  | .seek _ _ _ :: _ => true
  | _ => false

theorem seeking_of_receiving {cs : List Cmd} (h : receiving cs = true) : seeking cs = true := by
  unfold receiving at h
  split at h
  · rfl
  · rfl
  · cases h

theorem seeking_of_sending {cs : List Cmd} {x : XData} (h : sending cs = some x) :
    seeking cs = true ∧ receiving cs = false := by
  unfold sending at h
  split at h
  · exact ⟨rfl, rfl⟩
  · cases h

/-- What a command finds when it is a `Seek`: all parts are paused. -/
def SeekPaused (c : Cmd) (F : Obj → Flags) : Prop :=
  ∀ pos f pc, c = .seek pos f pc → ∀ o, (F o).isPause = true

theorem Call.finds_paused (c : Call) (F : Obj → Flags) : Finds SeekPaused (fun _ => True) c.program F := by
  cases c with
  | start sl =>
    cases sl <;> simp [Call.program, startCmds, startThread, Finds, SeekPaused]
  | setPause isP => simp [Call.program, pauseCmds, Finds, SeekPaused]
  | seek pos f =>
    simp [Call.program, seekEnd, pauseCmds, Finds, SeekPaused, Cmd.flags]
    rintro (_ | _ | (_ | _) | _) <;> simp
  | _ => simp [Call.program, closeCmds, openCmds, Finds, SeekPaused]

theorem Call.program_begins (c : Call) {pos : ℚ} {f : SeekFrame} {pc : SeekPc}
    (h : Cmd.seek pos f pc ∈ c.program) : pc = .lock := by
  cases c with
  | start sl => cases sl <;> simp [Call.program, startCmds, startThread] at h
  | seek =>
    simp [Call.program, seekEnd, pauseCmds] at h
    exact h.2.2
  | _ => simp [Call.program, closeCmds, openCmds, pauseCmds] at h

theorem Call.program_seeking (c : Call) : seeking c.program = false ∧ receiving c.program = false := by
  cases c <;> exact ⟨rfl, rfl⟩

theorem DecPc.collecting_locked {pc : DecPc} (h : pc.collecting = true) : pc.locked = true := by
  cases pc <;> first | rfl | cases h

theorem DecPc.outside_locked {pc : DecPc} (h : pc.outside = true) : pc.locked = false := by
  cases pc <;> first | rfl | cases h

namespace Player
variable {s s' t : Player K} (B : L.codec.Buffering)

/-- The frames that the codec of `d` has still to give. -/
def out (s : Player K) (d : Dec) : List AVFrame := (s.dec d).out B

/-- A packet is sent only while nothing is pending, so none is refused because of that. -/
def Ready (s : Player K) : Prop :=
  (∀ d n x, s.decW d n = .send x → s.out B d = []) ∧ ∀ x, sending s.ui = some x → s.out B .video = []

/-- Pending output is going to be collected: a worker receives until nothing comes, or `Seek` is about to
receive the only frame. -/
def Collected (s : Player K) : Prop :=
  ∀ d, s.out B d ≠ [] → (∃ n, (s.decW d n).collecting = true) ∨
    d = .video ∧ receiving s.ui = true ∧ (s.out B d).length ≤ 1

structure Fed (s : Player K) : Prop where
  holds : Holds s
  /-- Only the call as a whole begins with the `lock` of `Seek`. -/
  begins : ∀ pos f pc, Cmd.seek pos f pc ∈ s.ui.tail → pc = .lock
  paused : Finds SeekPaused (fun _ => True) s.ui s.flags
  outside : seeking s.ui = true → ∀ n, (s.decW .video n).outside = true
  collected : s.Collected B

theorem out_setDec_self (s : Player K) (d : Dec) (D : FFDecode K) : (s.setDec d D).out B d = D.out B :=
  congrArg (FFDecode.out B) (s.setDec_self d D)

theorem out_setDec_ne (s : Player K) {d d' : Dec} (D : FFDecode K) (h : d ≠ d') : (s.setDec d' D).out B d = s.out B d :=
  congrArg (FFDecode.out B) (s.setDec_ne D h)

/-- A decoder that keeps its codec keeps its output. -/
theorem out_setDec (s : Player K) {d' : Dec} (D : FFDecode K) (h : D.codec = (s.dec d').codec) (d : Dec) :
    (s.setDec d' D).out B d = s.out B d :=
  congrArg (FFmpeg.buffering B).out (setDec_congr FFDecode.codec s h d)

theorem Fed.ready (h : Fed B s) : s.Ready B := by
  refine ⟨fun d n x hx => ?_, fun x hx => ?_⟩
  · by_contra ho
    rcases h.collected d ho with ⟨m, hm⟩ | ⟨rfl, hr, -⟩
    · -- both would hold `packsMutex`
      have h1 := (h.holds.holder d n).mpr (by rw [hx]; rfl)
      have h2 := (h.holds.holder d m).mpr (DecPc.collecting_locked hm)
      obtain rfl := Option.some.inj (h1.symm.trans h2)
      rw [hx] at hm
      cases hm
    · have hq := h.outside (seeking_of_receiving hr) n
      rw [hx] at hq
      cases hq
  · by_contra ho
    rcases h.collected .video ho with ⟨m, hm⟩ | ⟨-, hr, -⟩
    · have hq := DecPc.outside_locked (h.outside (seeking_of_sending hx).1 m)
      rw [DecPc.collecting_locked hm] at hq
      cases hq
    · rw [(seeking_of_sending hx).2] at hr
      cases hr

/-! ### The steps -/

theorem Fed.of_eq (h : Fed B s) (hd : ∀ d, (t.dec d).codec = (s.dec d).codec) (hW : t.decW = s.decW)
    (hN : t.decN = s.decN) (hm : t.packsMutex = s.packsMutex) (hF : t.flags = s.flags) (hU : t.ui = s.ui) :
    Fed B t := by
  have ho : ∀ d, t.out B d = s.out B d := fun d => congrArg (FFmpeg.buffering B).out (hd d)
  refine ⟨h.holds.of_eq hN hW hm, ?_, ?_, ?_, fun d hne => ?_⟩
  · rw [hU]
    exact h.begins
  · rw [hU, hF]
    exact h.paused
  · rw [hU, hW]
    exact h.outside
  · rw [ho, hW, hU] at *
    exact h.collected d hne

/-- What a worker of `Main` does to the output of its codec. -/
theorem Decodes.out {n : ℕ} {d : Dec} {pc pc' : DecPc} (h : Decodes L d n s pc t pc')
    (hsend : ∀ x, pc = .send x → s.out B d = [])
    (hexit : ∀ x, pc = .innerExit x → s.isExit (.dec d) = true → s.out B d = []) :
    pc'.collecting = true ∨ t.out B d = [] ∨ pc.collecting = false ∧ t.out B d = s.out B d := by
  cases h with
  | sent | inner | recv | «show» | notify | noData | refused | leaked | pcm | pcmLost | pcmGo | pcmFull | pcmPush =>
    exact .inl rfl
  | unsent hs => exact .inr (.inl ((s.out_setDec_self B d _).trans ((s.dec d).out_sendPacket B hs (hsend _ rfl))))
  | innerExit he => exact .inr (.inl (hexit _ rfl he))
  | drained hr => exact .inr (.inl ((s.out_setDec_self B d _).trans ((s.dec d).out_recvFrame_null B hr)))
  | pop => exact .inr (.inr ⟨rfl, s.out_setDec_self B d _⟩)
  | exit | more | paused | run | shut | empty | drop => exact .inr (.inr ⟨rfl, rfl⟩)

theorem Decodes.outside {n : ℕ} {d : Dec} {pc pc' : DecPc} (h : Decodes L d n s pc t pc')
    (hp : s.isPause (.dec d) = true) (ho : pc.outside = true) : pc'.outside = true := by
  cases h with
  | exit | more | paused => rfl
  | run hp' =>
    rw [hp] at hp'
    cases hp'
  | _ => cases ho

theorem Finds.seek_paused (h : Finds SeekPaused (fun _ => True) s.ui s.flags) (hs : seeking s.ui = true)
    (o : Obj) : s.isPause o = true := by
  unfold seeking at hs
  split at hs
  · cases hs
  · rename_i hui
    rw [hui] at h
    exact h.1 _ _ _ rfl o
  · cases hs

theorem Fed.dec {d : Dec} {n : ℕ} {pc : DecPc} (h : Fed B s) (hd : Decodes L d n s (s.decW d n) t pc)
    (hexit : ∀ x, s.decW d n = .innerExit x → s.isExit (.dec d) = true → s.out B d = []) :
    Fed B (t.setDecW d n pc) := by
  have hU : t.ui = s.ui := (congrArg Player.ui hd.eq :)
  have hF : t.flags = s.flags := (congrArg Player.flags hd.eq :)
  have hW : t.decW = s.decW := (congrArg Player.decW hd.eq :)
  refine ⟨h.holds.dec hd, ?_, ?_, fun hs m => ?_, fun d' hne => ?_⟩
  · show ∀ pos f pc, Cmd.seek pos f pc ∈ t.ui.tail → pc = .lock
    rw [hU]
    exact h.begins
  · show Finds SeekPaused (fun _ => True) t.ui t.flags
    rw [hU, hF]
    exact h.paused
  · replace hs : seeking s.ui = true := hU ▸ hs
    rw [setDecW_decW, hW]
    split
    · rename_i he
      obtain ⟨rfl, rfl⟩ := he
      exact hd.outside (Finds.seek_paused h.paused hs _) (h.outside hs m)
    · exact h.outside hs m
  · have hne : t.out B d' ≠ [] := hne
    show (∃ m, ((t.setDecW d n pc).decW d' m).collecting = true) ∨
      d' = .video ∧ receiving t.ui = true ∧ (t.out B d').length ≤ 1
    have hkeep : t.out B d' = s.out B d' → (d' = d → (s.decW d n).collecting = false) →
        (∃ m, ((t.setDecW d n pc).decW d' m).collecting = true) ∨
          d' = .video ∧ receiving t.ui = true ∧ (t.out B d').length ≤ 1 := by
      intro ho hn
      rw [ho, hU]
      refine (h.collected d' (ho ▸ hne)).imp_left fun ⟨m, hm⟩ => ⟨m, ?_⟩
      rw [setDecW_decW, hW, if_neg]
      · exact hm
      · rintro ⟨rfl, rfl⟩
        rw [hn rfl] at hm
        cases hm
    by_cases hdd : d' = d
    · subst hdd
      rcases hd.out B (fun x hx => h.ready.1 _ _ _ hx) hexit with hc | ho | ⟨hn, ho⟩
      · refine .inl ⟨n, ?_⟩
        rw [setDecW_decW, if_pos ⟨rfl, rfl⟩]
        exact hc
      · exact absurd ho hne
      · exact hkeep ho fun _ => hn
    · exact hkeep (congrArg (FFDecode.out B) (hd.dec_other hdd)) fun he => absurd he hdd

/-- After its `lock`, `Seek` has taken the mutex. -/
theorem Seeks.seeking {pos : ℚ} {f : SeekFrame} {pc pc' : SeekPc} {cs : List Cmd}
    (h : Seeks L pos f s pc t (some pc')) : seeking (.seek pos f pc' :: cs) = true := by
  generalize hr : some pc' = r at h
  cases h with
  | @flush d => cases d <;> (cases hr; rfl)
  | unlock => cases hr
  | _ => cases hr; rfl

theorem Commands.out {c : Cmd} {cs cs' : List Cmd} (hB : ∀ p, B.out (L.opened p) = [])
    (h : Commands L cs s c t cs') (hc : ∀ pos f pc, c ≠ .seek pos f pc) (d : Dec) :
    t.out B d = s.out B d ∨ t.out B d = [] := by
  have hset : ∀ (d' : Dec) (D : FFDecode K), D.out B = (s.dec d').out B ∨ D.out B = [] →
      (s.setDec d' D).out B d = s.out B d ∨ (s.setDec d' D).out B d = [] := by
    intro d' D hD
    by_cases hd : d = d'
    · subst hd
      rw [out_setDec_self]
      exact hD
    · exact .inl (s.out_setDec_ne B D hd)
  cases h with
  | @spawn o => cases o <;> exact .inl rfl
  | @clear d' => exact hset d' (s.dec d').clear (.inl rfl)
  | @flush d' => exact hset d' _ (.inr ((s.dec d').out_flush B))
  | @free d' => exact hset d' _ (.inr rfl)
  | @openDec d' o =>
    refine hset d' _ ?_
    by_cases ho : (s.dec d').out B = []
    · exact .inr ((s.dec d').out_open B hB _ o ho)
    · unfold FFDecode.open
      split
      · exact .inl rfl
      · exact .inl rfl
      · exact .inr rfl
      · exact .inr (hB _)
  | seek => exact absurd rfl (hc _ _ _)
  | sought => exact absurd rfl (hc _ _ _)
  | _ => exact .inl rfl

theorem Commands.collecting {c : Cmd} {cs cs' : List Cmd} (h : Commands L cs s c t cs') (hH : Holds s) {d : Dec}
    {n : ℕ} (hn : (s.decW d n).collecting = true) : (t.decW d n).collecting = true := by
  cases h with
  | @spawn o =>
    cases o with
    | dec d' =>
      show ((s.setDecW d' (s.decN d') .exitTest).decW d n).collecting = true
      rw [setDecW_decW, if_neg]
      · exact hn
      · rintro ⟨rfl, rfl⟩
        rw [hH.gone d _ le_rfl] at hn
        cases hn
    | _ => exact hn
  | seek h | sought h =>
    have hW : t.decW = s.decW := (congrArg Player.decW h.eq :)
    rw [hW]
    exact hn
  | _ => exact hn

end Player

/-- The condition for `Main`: the inner loop does not end because of `isExit` with output pending. The
conditions for `Seek`: the workers of the video decoder are outside of their loop body when it takes the
player's mutex, and no packet that it sends yields two frames. -/
def DrainsFirst (B : L.codec.Buffering) (a : Act) (s : Player K) : Prop :=
  match a with
  | .dec d n => (s.decW d n).exiting = true → s.isExit (.dec d) = true → s.out B d = []
  | .ui => (locking s.ui = true → ∀ n < s.decN .video, (s.decW .video n).outside = true) ∧
    ∀ x ∈ sending s.ui, (((s.dec .video).sendPacket L x).2.out B).length ≤ 1
  | _ => True

instance (B : L.codec.Buffering) : (a : Act) → (s : Player K) → Decidable (DrainsFirst B a s)
  | .dec _ _, _ => inferInstanceAs (Decidable (_ → _ → _ = _))
  | .ui, _ => inferInstanceAs (Decidable ((_ → _) ∧ _))
  | .demux _, _ | .sync _, _ | .device, _ | .call, _ | .request _, _ => inferInstanceAs (Decidable True)

namespace Player
variable {s s' t : Player K} {B : L.codec.Buffering}

theorem Fed.seek (h : Fed B s) {pos : ℚ} {f : SeekFrame} {pc : SeekPc} {cs : List Cmd} {r : Option SeekPc}
    (hui : s.ui = .seek pos f pc :: cs) (hs : Seeks L pos f s pc t r) (ha : DrainsFirst B .ui s) :
    (∀ n, (t.decW .video n).outside = true) ∧ ∀ d, t.out B d ≠ [] →
      (∃ n, (t.decW d n).collecting = true) ∨
        d = .video ∧ receiving (r.toList.map (Cmd.seek pos f) ++ cs) = true ∧ (t.out B d).length ≤ 1 := by
  have hW : t.decW = s.decW := (congrArg Player.decW hs.eq :)
  have ho : ∀ n, (s.decW .video n).outside = true := by
    intro n
    by_cases hpc : pc = .lock
    · subst hpc
      by_cases hn : n < s.decN .video
      · exact ha.1 (by rw [hui]; rfl) n hn
      · rw [h.holds.gone _ _ (not_lt.mp hn)]
        rfl
    · exact h.outside (by rw [hui]; cases pc <;> first | rfl | exact absurd rfl hpc) n
  have hnone : ∀ n, (s.decW .video n).collecting ≠ true := fun n hc => by
    have hl := DecPc.outside_locked (ho n)
    rw [DecPc.collecting_locked hc] at hl
    cases hl
  rw [hW]
  refine ⟨ho, fun d hne => ?_⟩
  have hkeep : t.out B d = s.out B d → (d = .video → receiving s.ui = true →
      receiving (r.toList.map (Cmd.seek pos f) ++ cs) = true) →
      (∃ n, (s.decW d n).collecting = true) ∨
        d = .video ∧ receiving (r.toList.map (Cmd.seek pos f) ++ cs) = true ∧ (t.out B d).length ≤ 1 := by
    intro he hr
    rw [he] at hne ⊢
    exact (h.collected d hne).imp_right fun ⟨hd, hrec, hl⟩ => ⟨hd, hr hd hrec, hl⟩
  rw [hui] at hkeep
  cases hs with
  | @clear d' => 
    have he : (s.setDec d' (s.dec d').clear).out B d = s.out B d := s.out_setDec B (s.dec d').clear rfl d
    exact hkeep he fun _ hr => by cases hr
  | @flush d' =>
    by_cases hd : d = d'
    · subst hd
      exact absurd ((s.out_setDec_self B d _).trans ((s.dec d).out_flush B)) hne
    · exact hkeep (s.out_setDec_ne B _ hd) fun _ hr => by cases hr
  | nothing | early | wanted | picture =>
    refine hkeep ?_ fun _ hr => by cases hr
    rw [readBy_eq]
    rfl
  | update hu | done hu =>
    exact hkeep (congrArg (FFmpeg.buffering B).out (congrArg FFDecode.codec (hu.dec_fields d) :)) fun _ hr => by cases hr
  | @send t' x =>
    by_cases hd : d = .video
    · subst hd
      refine .inr ⟨rfl, rfl, ?_⟩
      have hx := ha.2 x (by rw [hui]; rfl)
      exact (congrArg List.length (s.out_setDec_self B .video _)).trans_le hx
    · exact hkeep (s.out_setDec_ne B _ hd) fun he => absurd he hd
  | drop => exact hkeep rfl fun _ _ => rfl
  | found | before =>
    by_cases hd : d = .video
    · subst hd
      -- the only frame is received
      refine absurd ((s.out_setDec_self B .video _).trans ((s.dec .video).out_recvFrame_le_one B ?_)) hne
      by_cases hs : s.out B .video = []
      · exact (congrArg List.length hs).trans_le (Nat.zero_le 1)
      · rcases h.collected .video hs with ⟨n, hn⟩ | ⟨-, -, hl⟩
        · exact absurd hn (hnone n)
        · exact hl
    · exact hkeep (s.out_setDec_ne B _ hd) fun he => absurd he hd
  | _ => exact hkeep rfl fun _ hr => by cases hr

theorem Steps.seek_paused {a : Act} (hs : Steps L s a t) (h : Finds SeekPaused (fun _ => True) s.ui s.flags) :
    Finds SeekPaused (fun _ => True) t.ui t.flags := by
  refine hs.finds h (fun _ _ _ => ⟨fun _ _ _ he => (by cases he), fun _ _ _ he => (by cases he), trivial⟩)
    (fun pos f pc pc' F hQ pos' f' pc'' he => ?_) fun c _ _ => Call.finds_paused c _
  cases he
  exact hQ _ _ _ rfl

/-- What follows a step of the controller does not begin in the middle of a `Seek`. -/
theorem Commands.begins {c : Cmd} {cs cs' : List Cmd} (h : Commands L cs s c t cs')
    (hb : ∀ pos f pc, Cmd.seek pos f pc ∈ cs → pc = .lock) (pos : ℚ) (f : SeekFrame) (pc : SeekPc)
    (hm : Cmd.seek pos f pc ∈ cs'.tail) : pc = .lock := by
  cases h with
  | seek => exact hb pos f pc hm
  | openFailed => simp at hm
  | _ => exact hb pos f pc (List.mem_of_mem_tail hm)

theorem seeking_of_begins {cs : List Cmd} (hb : ∀ pos f pc, Cmd.seek pos f pc ∈ cs → pc = .lock) :
    seeking cs = false := by
  rcases cs with _ | ⟨c, cs⟩
  · rfl
  · cases c with
    | seek pos f pc =>
      obtain rfl := hb pos f pc List.mem_cons_self
      rfl
    | _ => rfl

theorem Fed.command (h : Fed B s) {c : Cmd} {cs cs' : List Cmd} (hB : ∀ p, B.out (L.opened p) = [])
    (hui : s.ui = c :: cs) (hc : Commands L cs s c t cs') (ha : DrainsFirst B .ui s) :
    Fed B { t with ui := cs' } := by
  have hs : Steps L s .ui { t with ui := cs' } := .ui hui hc
  have hb : ∀ pos f pc, Cmd.seek pos f pc ∈ cs → pc = .lock := fun pos f pc hm =>
    h.begins pos f pc (by rw [hui]; exact hm)
  have hcs : seeking cs = false := seeking_of_begins hb
  refine ⟨h.holds.step hs, hc.begins hb, hs.seek_paused h.paused, ?_, ?_⟩
  · show seeking cs' = true → ∀ n, (t.decW .video n).outside = true
    cases hc with
    | seek hk => exact fun _ => (h.seek hui hk ha).1
    | openFailed => exact fun hk => by cases hk
    | _ => exact fun hk => absurd (hcs.symm.trans hk) Bool.false_ne_true
  · show ∀ d, t.out B d ≠ [] → (∃ n, (t.decW d n).collecting = true) ∨
      d = .video ∧ receiving cs' = true ∧ (t.out B d).length ≤ 1
    by_cases hsk : ∃ pos f pc, c = .seek pos f pc
    · obtain ⟨pos, f, pc, rfl⟩ := hsk
      cases hc with
      | seek hk => exact (h.seek hui hk ha).2
      | sought hk => exact (h.seek hui hk ha).2
    · have hne : ∀ pos f pc, c ≠ .seek pos f pc := fun pos f pc he => hsk ⟨pos, f, pc, he⟩
      intro d hd
      rcases hc.out B hB hne d with ho | ho
      · rw [ho] at hd
        rcases h.collected d hd with ⟨n, hn⟩ | ⟨-, hr, -⟩
        · exact .inl ⟨n, hc.collecting h.holds hn⟩
        · -- `Seek` is not under way
          have hk := seeking_of_receiving hr
          rw [hui] at hk
          cases c with
          | seek pos f pc => exact absurd rfl (hne pos f pc)
          | _ => cases hk
      · exact absurd ho hd

theorem Fed.step (h : Fed B s) (hB : ∀ p, B.out (L.opened p) = []) {a : Act} (ha : DrainsFirst B a s)
    (hs : Steps L s a t) : Fed B t := by
  cases hs with
  | @demux n t pc hd =>
    exact h.of_eq B (fun d => (congrArg FFDecode.codec (hd.dec_fields d) :)) (congrArg Player.decW hd.eq :)
      (congrArg Player.decN hd.eq :) (congrArg Player.packsMutex hd.eq :) (congrArg Player.flags hd.eq :) (congrArg Player.ui hd.eq :)
  | @dec d n t pc hd =>
    exact h.dec B hd fun x hx => ha (by rw [hx]; rfl)
  | @sync n hp hm =>
    refine h.of_eq B (fun d => ?_) rfl rfl rfl rfl rfl
    cases d <;> rfl
  | syncExit | syncMore | device | call => exact h.of_eq B (fun _ => rfl) rfl rfl rfl rfl rfl
  | ui hui hc => exact h.command hB hui hc ha
  | @request c hui =>
    have hf := (Steps.request (L := L) (c := c) hui).seek_paused h.paused
    obtain ⟨h1, h2⟩ := c.program_seeking
    refine ⟨h.holds.of_eq rfl rfl rfl, fun pos f pc hm => c.program_begins (List.mem_of_mem_tail hm), hf,
      fun hk => absurd (h1.symm.trans hk) Bool.false_ne_true, fun d hd => ?_⟩
    rcases h.collected d hd with hn | ⟨-, hr, -⟩
    · exact .inl hn
    · rw [hui] at hr
      cases hr

end Player

/-- For a codec that buffers its output: in every run that meets the conditions, no packet is sent while
output is pending, and pending output is going to be collected. -/
theorem back_pressure (L : FFmpeg K) (B : L.codec.Buffering) (hB : ∀ p, B.out (L.opened p) = []) {s : Player K}
    (h : (player L).Reach (DrainsFirst B) s) : s.Ready B ∧ s.Collected B := by
  have hI : s.Fed B := by
    refine h.inv (I := fun s => s.Fed B) ?_ fun a s t hI ha hs => hI.step hB ha (Player.steps hs)
    rintro _ ⟨total, rfl⟩
    refine ⟨⟨fun _ _ _ => rfl, fun d n => ⟨fun h => ?_, fun h => ?_⟩⟩, fun _ _ _ hm => ?_, trivial, fun hk => ?_,
      fun d hd => absurd rfl hd⟩
    · cases h
    · cases h
    · cases hm
    · cases hk
  exact ⟨hI.ready, hI.collected⟩

/-- The frames that are still to be received. -/
def bytewiseOut : bytewise.codec.Buffering where
  out := id
  accepted k p h := by
    by_cases hk : k = []
    · exact ⟨_, by simp only [bytewise, hk]; rfl⟩
    · simp [bytewise, hk] at h
  pending k p h := by
    have hk : k ≠ [] := h
    simp [bytewise, hk]
  refused k p h := by
    by_cases hk : k = []
    · simp [bytewise, hk] at h
    · simp [bytewise, hk]
  recv k := ⟨rfl, rfl⟩
  flush k := rfl

set_option maxRecDepth 4000 in
/-- `Seek` decodes up to its target, and the worker of `Main` the next packet. -/
theorem back_pressure_seek : ∃ s : Player (List AVFrame),
    s.out bytewiseOut .video ≠ [] ∧ s.Ready bytewiseOut ∧ s.Collected bytewiseOut := by
  have hr : ((player bytewise).execIf (DrainsFirst bytewiseOut) (openStart [] .opened ++
      .request (.seek 0 fun _ _ => (0, [⟨0, 0, 0, [0]⟩, ⟨0, 40, 40, [0, 1]⟩])) :: List.replicate 29 .ui ++
        List.replicate 7 (.demux 0) ++ List.replicate 4 (.dec .video 0)) { demux := { total := 0 } }).map
          (fun s => (s.out bytewiseOut .video).length) = some 2 := by decide +kernel
  obtain ⟨s, hs, hl⟩ := Option.map_eq_some_iff.mp hr
  refine ⟨s, fun h => ?_, back_pressure bytewise bytewiseOut (fun _ => rfl) ⟨_, ⟨0, rfl⟩, .of_execIf hs⟩⟩
  rw [h] at hl
  cases hl

set_option maxRecDepth 4000 in
/-- `Seek` sends a packet with two frames, receives one of them, and sends the next packet. -/
theorem back_pressure_refused : ¬ ∀ s : Player (List AVFrame), (player bytewise).Reach Sys.any s →
    s.Ready bytewiseOut ∧ s.Collected bytewiseOut := by
  intro h
  have hr : ((player bytewise).exec (openStart [] .opened ++
      .request (.seek 1 fun _ _ => (0, [⟨0, 0, 0, [0, 1]⟩, ⟨0, 40, 40, [0]⟩])) :: List.replicate 22 .ui)
        { demux := { total := 0 } }).map (fun s => ((sending s.ui).isSome, (s.out bytewiseOut .video).length)) =
          some (true, 1) := by decide +kernel
  obtain ⟨s, hs, he⟩ := Option.map_eq_some_iff.mp hr
  simp only [Prod.mk.injEq, Option.isSome_iff_exists] at he
  obtain ⟨⟨x, hx⟩, hl⟩ := he
  rw [(h s ⟨_, ⟨0, rfl⟩, .of_exec_any hs⟩).1.2 x hx] at hl
  cases hl

end XPlayer
