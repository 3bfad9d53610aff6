import NetPrograms.P2p.Main

/-! What an event of stage 2 does, and the rule for what a whole batch keeps. -/

namespace NetPrograms.P2p

/-- A flush that has to wait began with bytes to send. -/
theorem outbufFlushFd_one {b after : Outbuf} {results : List SendResult} {bytes : List UInt8} {ret : Option Int}
    (flushed : outbufFlushFd b results = some (after, bytes, ret)) (nonzero : ret ≠ some 0) : outbufEmpty b = false := by
  by_contra empty
  have done : ¬ b.off < b.len := by simpa [outbufEmpty] using empty
  have zero : outbufFlushFd b results = some ({ b with off := 0, len := 0 }, [], some 0) := by
    cases results <;> (unfold outbufFlushFd; exact if_neg done)
  rw [zero] at flushed
  cases flushed
  exact nonzero rfl

theorem outbufFlushFd_zero {b after : Outbuf} {results : List SendResult} {bytes : List UInt8}
    (flushed : outbufFlushFd b results = some (after, bytes, some 0)) : outbufEmpty after = true := by
  induction results generalizing b bytes with
  | nil =>
    unfold outbufFlushFd at flushed
    split at flushed
    · cases flushed
    · cases flushed
      rfl
  | cons result results ih =>
    unfold outbufFlushFd at flushed
    split at flushed
    next =>
      cases result with
      | sent room =>
        obtain ⟨request, -, flushed⟩ := Option.bind_eq_some_iff.mp flushed
        obtain ⟨⟨middle, accepted, ret⟩, rest, same⟩ := Option.bind_eq_some_iff.mp flushed
        cases same
        exact ih rest
      | eintr => exact ih flushed
      | zero | eagain | failed => cases flushed
    next =>
      cases flushed
      rfl

namespace Main

/-- The steps that the three parts of an event are made of. -/
inductive Chats (s : Main) : Main → Prop where
  | same : Chats s s
  | stops (ob : Outbuf) : Chats s { s with ob, gStop := true }
  | wants (ob : Outbuf) : Chats s { s with ob, epoll := s.epoll.mod s.establishedFd (wanted ob) }
  | waits (ob : Outbuf) (some : outbufEmpty s.ob = false) : Chats s { s with ob }

variable {s before after : Main} {ev : Ready} {evs : List Ready}

theorem Chats.stage (chats : Chats before after) : after.stage = before.stage := by
  cases chats <;> rfl

theorem readStdin_chats (taken : s.readStdin ev = some after) : Chats s after := by
  unfold readStdin at taken
  split at taken
  next =>
    split at taken
    next =>
      obtain ⟨⟨ob, ret⟩, -, taken⟩ := Option.bind_eq_some_iff.mp taken
      dsimp only at taken
      split at taken
      · cases taken
        exact .stops ob
      · cases taken
        exact .wants ob
    next =>
      cases taken
      exact .same
    next =>
      cases taken
      exact .same
    next =>
      cases taken
      exact .stops s.ob
  next =>
    cases taken
    exact .same

theorem recvPeer_chats (s : Main) (ev : Ready) : Chats s (s.recvPeer ev) := by
  unfold recvPeer
  split
  · split
    · exact .stops s.ob
    · split
      · split
        · exact .same
        · exact .same
        · exact .stops s.ob
        · exact .stops s.ob
      · exact .same
  · exact .same

theorem flushPeer_chats (taken : s.flushPeer ev = some after) : Chats s after := by
  unfold flushPeer at taken
  split at taken
  next =>
    obtain ⟨⟨ob, accepted, ret⟩, flushed, taken⟩ := Option.bind_eq_some_iff.mp taken
    dsimp only at taken
    obtain ⟨r, returned, answered⟩ := Option.bind_eq_some_iff.mp taken
    subst returned
    split at answered
    next =>
      cases answered
      exact .stops ob
    next =>
      split at answered
      next zero =>
        subst zero
        cases answered
        -- an empty buffer wants what the flush branch asks for
        have wants : Chats s { s with ob, epoll := s.epoll.mod s.establishedFd (wanted ob) } := .wants ob
        rw [wanted, outbufFlushFd_zero flushed] at wants
        exact wants
      next nonzero =>
        cases answered
        exact .waits ob (outbufFlushFd_one flushed (by simpa using nonzero))
  next =>
    cases taken
    exact .same

/-- What each of the steps keeps, a whole batch keeps. -/
theorem chatEvents_rule (P : Main → Prop) (kept : ∀ before after, P before → Chats before after → P after)
    (initial : P s) (taken : s.chatEvents evs = some after) : P after := by
  induction evs generalizing s with
  | nil =>
    cases taken
    exact initial
  | cons ev evs ih =>
    obtain ⟨middle, one, taken⟩ := Option.bind_eq_some_iff.mp taken
    have held : P middle := by
      obtain ⟨first, read, one⟩ := Option.bind_eq_some_iff.mp one
      have first' := kept _ _ initial (readStdin_chats read)
      have second := kept _ _ first' (recvPeer_chats first ev)
      split at one
      · cases one
        exact first'
      · simp only at one
        split at one
        · cases one
          exact second
        · exact kept _ _ second (flushPeer_chats one)
    split at taken
    · cases taken
      exact held
    · exact ih held taken

theorem turnSecond_cases {turn : Turn} (taken : before.turnSecond turn = some after) :
    after.stage = .returned 0 ∨ ∃ middle, (middle = before ∨ ∃ evs, before.chatEvents evs = some middle) ∧
      after = middle.interrupt turn := by
  unfold turnSecond at taken
  split at taken
  next =>
    cases taken
    exact .inr ⟨before, .inl rfl, rfl⟩
  next =>
    cases taken
    exact .inl rfl
  next evs ready =>
    split at taken
    next =>
      obtain ⟨middle, chat, rfl⟩ := Option.map_eq_some_iff.mp taken
      exact .inr ⟨middle, .inr ⟨evs, chat⟩, rfl⟩
    next => cases taken

end Main
end NetPrograms.P2p
