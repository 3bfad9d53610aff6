import NetPrograms.Kcp.Server

/-! Messages of a session through `HandleSession`. The array that receives every
message also holds the datagram before the first one, so a message is taken for
the keep-alive command by what it leaves in the array. -/

namespace NetPrograms.Proofs.ServerDelivery
open Kcp

universe u
variable {σ : Type u}

section drain
variable (on : Callbacks σ) (fuel : Nat) (buf : Buffer UInt8 bodySize) (state : σ)

theorem recvLoop_nil : recvLoop on (fuel + 1) buf [] state = .returned buf [] state := by
  simp [recvLoop, ikcpRecv]

theorem recvLoop_cons {msg : List UInt8} (rest : List (List UInt8)) (fits : msg.length ≤ bodySize) :
    recvLoop on (fuel + 1) buf (msg :: rest) state =
      if msg = [] then .returned (buf.put msg fits) rest (on.received state msg)
      else if kcpKeepAliveCmd <+: (buf.put msg fits).cells then
        recvLoop on fuel (buf.put msg fits) rest (on.setKeepAlive (on.received state msg))
      else recvLoop on fuel (buf.put msg fits) rest (on.handleMessage (on.received state msg) msg) := by
  have taken : ((buf.put msg fits).cells.take (msg.length : Int).toNat) = msg := by simp
  have command : (buf.put msg fits).cells.take kcpKeepAliveCmd.length = kcpKeepAliveCmd ↔
      kcpKeepAliveCmd <+: (buf.put msg fits).cells := by
    rw [List.prefix_iff_eq_take, eq_comm]
  have empty : (msg.length : Int) ≤ 0 ↔ msg = [] := by
    rw [← List.length_eq_zero_iff]; omega
  have long : ¬ (msg.length : Int) = -3 := by omega
  have negative : ¬ (msg.length : Int) < 0 := by omega
  simp only [recvLoop, ikcpRecv, dif_pos fits, if_neg long, if_neg negative, taken, command, empty]

theorem recvLoop_long {msg : List UInt8} (rest : List (List UInt8)) (long : bodySize < msg.length) :
    recvLoop on (fuel + 1) buf (msg :: rest) state = .exited state := by
  have outside : ¬ msg.length ≤ bodySize := Nat.not_le.mpr long
  simp [recvLoop, ikcpRecv, outside]

end drain

def result : Outcome σ → σ
  | .returned _ _ state => state
  | .exited state => state

/-- Every call of the loop keeps the property of the state. -/
structure Keeps (on : Callbacks σ) (Inv : σ → Prop) : Prop where
  received : ∀ state msg, Inv state → Inv (on.received state msg)
  setKeepAlive : ∀ state, Inv state → Inv (on.setKeepAlive state)
  handleMessage : ∀ state msg, Inv state → Inv (on.handleMessage state msg)

/-- Every round of the loop that takes a message keeps the property of the state. -/
structure Rounds (on : Callbacks σ) (Inv : σ → Prop) : Prop where
  empty : ∀ state, Inv state → Inv (on.received state [])
  command : ∀ state msg, msg ≠ [] → Inv state → Inv (on.setKeepAlive (on.received state msg))
  message : ∀ state msg, msg ≠ [] → msg.length ≤ bodySize → Inv state →
    Inv (on.handleMessage (on.received state msg) msg)

theorem Keeps.rounds {on : Callbacks σ} {Inv : σ → Prop} (keeps : Keeps on Inv) : Rounds on Inv where
  empty state held := keeps.received state [] held
  command state msg _ held := keeps.setKeepAlive _ (keeps.received state msg held)
  message state msg _ _ held := keeps.handleMessage _ msg (keeps.received state msg held)

theorem Rounds.and {on : Callbacks σ} {First Second : σ → Prop} (first : Rounds on First) (second : Rounds on Second) :
    Rounds on fun state => First state ∧ Second state where
  empty state held := ⟨first.empty state held.1, second.empty state held.2⟩
  command state msg some held := ⟨first.command state msg some held.1, second.command state msg some held.2⟩
  message state msg some fits held := ⟨first.message state msg some fits held.1, second.message state msg some fits held.2⟩

theorem recvLoop_keeps {on : Callbacks σ} {Inv : σ → Prop} (rounds : Rounds on Inv) (fuel : Nat)
    (buf : Buffer UInt8 bodySize) (queue : List (List UInt8)) (state : σ) (held : Inv state) :
    Inv (result (recvLoop on fuel buf queue state)) := by
  induction fuel generalizing buf queue state with
  | zero => exact held
  | succ fuel ih =>
    cases queue with
    | nil =>
      rw [recvLoop_nil]
      exact held
    | cons msg rest =>
      by_cases fits : msg.length ≤ bodySize
      · rw [recvLoop_cons on fuel buf state rest fits]
        split
        next empty =>
          subst empty
          exact rounds.empty state held
        next some =>
          split
          · exact ih _ _ _ (rounds.command state msg some held)
          · exact ih _ _ _ (rounds.message state msg some fits held)
      · rw [recvLoop_long on fuel buf state rest (Nat.lt_of_not_le fits)]
        exact held

theorem handleSession_keeps {on : Callbacks σ} {Inv : σ → Prop} (rounds : Rounds on Inv)
    {buf after : Buffer UInt8 bodySize} {ret : Int} {queue rest : List (List UInt8)} {state last : σ}
    (returned : handleSession on buf ret queue state = .returned after rest last) (held : Inv state) : Inv last := by
  unfold handleSession at returned
  split at returned
  next =>
    cases returned
    exact held
  next =>
    have kept := recvLoop_keeps rounds (queue.length + 1) buf queue state held
    rw [returned] at kept
    exact kept

/-- A call of `HandleSession`, as the session or the program above it sees it. -/
inductive Callback where
  | setKeepAlive
  | handleMessage (msg : List UInt8)
  deriving DecidableEq

def trace : Callbacks (List Callback) where
  received calls _ := calls
  setKeepAlive calls := calls ++ [.setKeepAlive]
  handleMessage calls msg := calls ++ [.handleMessage msg]

def expected (msg : List UInt8) : Callback :=
  if msg = kcpKeepAliveCmd then .setKeepAlive else .handleMessage msg

private def called (cells msg : List UInt8) : Callback :=
  if kcpKeepAliveCmd <+: cells then .setKeepAlive else .handleMessage msg

/-- No message but the command leaves the command at the start of the array. -/
def NoneMistaken (cells : List UInt8) : List (List UInt8) → Prop
  | [] => True
  | msg :: rest =>
    (kcpKeepAliveCmd <+: Block.overlay cells 0 msg → msg = kcpKeepAliveCmd) ∧
      NoneMistaken (Block.overlay cells 0 msg) rest

private theorem called_eq_expected (cells msg : List UInt8) :
    called (Block.overlay cells 0 msg) msg = expected msg ↔
      (kcpKeepAliveCmd <+: Block.overlay cells 0 msg → msg = kcpKeepAliveCmd) := by
  by_cases command : msg = kcpKeepAliveCmd
  · have start : kcpKeepAliveCmd <+: Block.overlay cells 0 msg := by
      rw [Block.overlay_zero, command]
      exact List.prefix_append _ _
    rw [called, expected, if_pos start, if_pos command]
    simp [command]
  · simp [called, expected, command]

private theorem trace_extends (fuel : Nat) (buf : Buffer UInt8 bodySize) (queue : List (List UInt8))
    (calls : List Callback) : calls <+: result (recvLoop trace fuel buf queue calls) := by
  have keeps : Keeps trace fun later => calls <+: later := by
    constructor
    · intro later _ earlier
      exact earlier
    · intro later earlier
      exact earlier.trans (List.prefix_append _ _)
    · intro later _ earlier
      exact earlier.trans (List.prefix_append _ _)
  exact recvLoop_keeps keeps.rounds fuel buf queue calls List.prefix_rfl

private theorem trace_cons (fuel : Nat) (buf : Buffer UInt8 bodySize) {msg : List UInt8} (rest : List (List UInt8))
    (calls : List Callback) (fits : msg.length ≤ bodySize) (some : msg ≠ []) :
    recvLoop trace (fuel + 1) buf (msg :: rest) calls =
      recvLoop trace fuel (buf.put msg fits) rest (calls ++ [called (Block.overlay buf.cells 0 msg) msg]) := by
  rw [recvLoop_cons trace fuel buf calls rest fits, if_neg some]
  unfold called
  split
  next command =>
    rw [if_pos (by rwa [Buffer.put_cells, ← Block.overlay_zero] at command)]
    rfl
  next other =>
    rw [if_neg (by rwa [Buffer.put_cells, ← Block.overlay_zero] at other)]
    rfl

/-- The loop makes the expected calls and leaves nothing exactly when no message
is empty and none is mistaken. -/
theorem recvLoop_delivers (queue : List (List UInt8)) (bounded : ∀ msg ∈ queue, msg.length ≤ bodySize)
    (buf : Buffer UInt8 bodySize) (calls : List Callback) :
    (∃ after, recvLoop trace (queue.length + 1) buf queue calls = .returned after [] (calls ++ queue.map expected)) ↔
      [] ∉ queue ∧ NoneMistaken buf.cells queue := by
  induction queue generalizing buf calls with
  | nil => simp [recvLoop_nil, NoneMistaken]
  | cons msg rest ih =>
    have fits : msg.length ≤ bodySize := bounded msg (by simp)
    have bounded : ∀ msg ∈ rest, msg.length ≤ bodySize := by
      intro other member
      exact bounded other (List.mem_cons_of_mem _ member)
    by_cases empty : msg = []
    · -- The loop stops, and the call for the empty message is missing.
      rw [List.length_cons, recvLoop_cons trace _ buf calls rest fits, if_pos empty]
      simp [empty, trace]
    · rw [List.length_cons, trace_cons _ buf rest calls fits empty]
      by_cases right : called (Block.overlay buf.cells 0 msg) msg = expected msg
      · have next := ih bounded (buf.put msg fits) (calls ++ [expected msg])
        rw [right, List.map_cons, NoneMistaken, ← called_eq_expected]
        rw [List.append_assoc, Buffer.put_cells, ← Block.overlay_zero] at next
        simpa [right, Ne.symm empty] using next
      · constructor
        · rintro ⟨after, returned⟩
          have later := trace_extends (rest.length + 1) (buf.put msg fits) rest
            (calls ++ [called (Block.overlay buf.cells 0 msg) msg])
          rw [returned, result, List.map_cons, List.prefix_append_right_inj, List.cons_prefix_cons] at later
          exact absurd later.1 right
        · rintro ⟨-, unmistaken, -⟩
          exact absurd ((called_eq_expected _ _).mpr unmistaken) right

/-- Every message is handed on as what it is, and none is left, exactly when `Input`
succeeded, no message is empty and none is mistaken for the command. -/
theorem handle_session_delivers_iff (buf : Buffer UInt8 bodySize) (ret : Int) (queue : List (List UInt8))
    (bounded : ∀ msg ∈ queue, msg.length ≤ bodySize) :
    (∃ after, handleSession trace buf ret queue [] = .returned after [] (queue.map expected)) ↔
      (ret = 0 ∨ queue = []) ∧ [] ∉ queue ∧ NoneMistaken buf.cells queue := by
  by_cases failed : ret ≠ 0
  · rw [handleSession, if_pos failed]
    cases queue with
    | nil => simp [NoneMistaken]
    | cons msg rest => simp [failed]
  · rw [handleSession, if_neg failed]
    have delivers := recvLoop_delivers queue bounded buf []
    rw [List.nil_append] at delivers
    rw [delivers, Decidable.not_not.mp failed]
    simp

theorem handle_session_delivers_greeting :
    ∃ after, handleSession trace (Buffer.fill 0) 0 [kcpKeepAliveCmd, ascii "hello", kcpKeepAliveCmd] [] =
      .returned after [] ([kcpKeepAliveCmd, ascii "hello", kcpKeepAliveCmd].map expected) := by
  apply (handle_session_delivers_iff (Buffer.fill 0) 0 [kcpKeepAliveCmd, ascii "hello", kcpKeepAliveCmd] ?_).mpr
  · refine ⟨.inl rfl, by decide, fun _ => rfl, ?_, fun _ => rfl, trivial⟩
    intro command
    exact absurd command (by decide)
  · decide

/-- A letter K after the command leaves the command as it was in the array. -/
theorem handle_session_mistakes_letter :
    (∀ msg ∈ [kcpKeepAliveCmd, ascii "K"], msg.length ≤ bodySize) ∧
      ¬ ∃ after, handleSession trace (Buffer.fill 0) 0 [kcpKeepAliveCmd, ascii "K"] [] =
        .returned after [] ([kcpKeepAliveCmd, ascii "K"].map expected) := by
  have bounded : ∀ msg ∈ [kcpKeepAliveCmd, ascii "K"], msg.length ≤ bodySize := by decide
  refine ⟨bounded, ?_⟩
  rintro ⟨after, returned⟩
  obtain ⟨-, -, letter, -⟩ := (recvLoop_delivers _ bounded (Buffer.fill 0) []).mp ⟨after, returned⟩
  exact absurd (letter (by decide)) (by decide)

end NetPrograms.Proofs.ServerDelivery
