import Kazoo.Lib.Paced
import Kazoo.Protocol.RoundTrip

/-!
# Framing

`_write`, `_read` and the first lines of `_read_header` of `kazoo/protocol/connection.py`.  The
socket decides what becomes of a turn of their loops; the state is the byte stream, what has been
sent to it for `_write` and what has not been received from it for `_read`.
-/

namespace Kazoo

/-- What `select` and then `send` or `recv` make of a turn. -/
inductive SocketTurn
  -- `select` returns no socket; not when bytes are pending in an SSL socket, which is not selected
  | timeout
  -- `SSL_ERROR_WANT_READ` or `SSL_ERROR_WANT_WRITE`
  | wants
  -- any other `OSError`
  | fails
  -- that many bytes are taken or yielded, or as many as there are to take or asked for
  | passes (n : Nat)
  deriving DecidableEq

namespace SocketTurn

/-- What ends the loop: a time-out, an error that `_socket_error_handling` turns into another one,
an empty chunk or no byte sent. -/
def exn : SocketTurn → Option Exn
  | .timeout => some .kazooTimeoutError
  | .wants => none
  | .fails => some .connectionDropped
  | .passes n => if n = 0 then some .connectionDropped else none

def moves : SocketTurn → Bool
  | .passes n => n != 0
  | _ => false

end SocketTurn

abbrev Socket (α : Type) : Type := Paced Bytes SocketTurn Exn α

/-- The loop of `_write`. -/
def writeLoop (msg : Bytes) (sent : Nat) (stream : Bytes) :
    List SocketTurn → Ran Bytes SocketTurn Exn Unit
  | [] => if sent < msg.length then ⟨.waiting, stream, []⟩ else ⟨.returned (), stream, []⟩
  | turn :: turns =>
    if sent < msg.length then
      match turn with
      | .timeout => ⟨.raised .kazooTimeoutError, stream, turns⟩
      | .wants => writeLoop msg sent stream turns
      | .fails => ⟨.raised .connectionDropped, stream, turns⟩
      | .passes n =>
        let bytesSent := min n (msg.drop sent).length
        if bytesSent = 0 then ⟨.raised .connectionDropped, stream, turns⟩
        else writeLoop msg (sent + bytesSent) (stream ++ (msg.drop sent).take bytesSent) turns
    else ⟨.returned (), stream, turn :: turns⟩

/-- `_write`. -/
def write (msg : Bytes) : Socket Unit := writeLoop msg 0

/-- The loop of `_read`. -/
def readLoop (remaining : Nat) (msgparts : List Bytes) (stream : Bytes) :
    List SocketTurn → Ran Bytes SocketTurn Exn Bytes
  | [] =>
    if 0 < remaining then ⟨.waiting, stream, []⟩ else ⟨.returned msgparts.flatten, stream, []⟩
  | turn :: turns =>
    if 0 < remaining then
      match turn with
      | .timeout => ⟨.raised .kazooTimeoutError, stream, turns⟩
      | .wants => readLoop remaining msgparts stream turns
      | .fails => ⟨.raised .connectionDropped, stream, turns⟩
      | .passes n =>
        let chunk := stream.take (min n remaining)
        if chunk = [] then ⟨.raised .connectionDropped, stream, turns⟩
        else
          readLoop (remaining - chunk.length) (msgparts ++ [chunk]) (stream.drop chunk.length) turns
    else ⟨.returned msgparts.flatten, stream, turn :: turns⟩

/-- `_read`: with a negative length the loop is not entered. -/
def read (length : Int) : Socket Bytes := readLoop length.toNat []

/-- `int_struct.pack(len(b)) + b`. -/
def frame (b : Bytes) : Except Exn Bytes := do return (← intPack b.length) ++ b

/-- Messages that are submitted one after the other. -/
def writeMessages : List Bytes → Socket Unit
  | [] => pure ()
  | b :: bs => do
    let msg ← Paced.ofExcept (frame b)
    write msg
    writeMessages bs

/-- `_read_header` up to `ReplyHeader.deserialize`. -/
def readMessage : Socket Bytes := do
  let b ← read 4
  let length ← Paced.ofExcept (intUnpackFrom b 0)
  read length

def readMessages : Nat → Socket (List Bytes)
  | 0 => pure []
  | count + 1 => do
    let b ← readMessage
    let bs ← readMessages count
    return b :: bs

section Loops

variable {msg stream more : Bytes} {sent remaining : Nat} {parts : List Bytes} {turn : SocketTurn}
  {turns : List SocketTurn} {e : Exn}

theorem SocketTurn.of_moves (h : turn.moves = true) : ∃ n, 0 < n ∧ turn = .passes n := by
  cases turn with
  | passes n => exact ⟨n, Nat.pos_of_ne_zero (bne_iff_ne.mp h), rfl⟩
  | _ => cases h

theorem SocketTurn.of_keeps (hexn : turn.exn = none) (h : turn.moves = false) : turn = .wants := by
  cases turn with
  | wants => rfl
  | passes n =>
    have hzero : (n != 0) = false := h
    obtain rfl : n = 0 := bne_eq_false_iff_eq.mp hzero
    cases hexn
  | _ => cases hexn

theorem SocketTurn.of_exn (h : turn.exn = some e) :
    turn = .timeout ∧ e = .kazooTimeoutError ∨ turn = .fails ∧ e = .connectionDropped ∨
      turn = .passes 0 ∧ e = .connectionDropped := by
  cases turn with
  | timeout => exact .inl ⟨rfl, (Option.some.inj h).symm⟩
  | wants => cases h
  | fails => exact .inr (.inl ⟨rfl, (Option.some.inj h).symm⟩)
  | passes n =>
    obtain ⟨rfl, hsome⟩ := Option.ite_none_right_eq_some.mp h
    exact .inr (.inr ⟨rfl, (Option.some.inj hsome).symm⟩)

theorem writeLoop_done (h : msg.length ≤ sent) :
    writeLoop msg sent stream turns = ⟨.returned (), stream, turns⟩ := by
  cases turns with
  | nil =>
    rw [writeLoop]
    exact if_neg (by omega)
  | cons turn turns =>
    cases turn <;>
    · rw [writeLoop]
      exact if_neg (by omega)

theorem writeLoop_wants (h : sent < msg.length) :
    writeLoop msg sent stream (.wants :: turns) = writeLoop msg sent stream turns := by
  rw [writeLoop, if_pos h]

/-- A time-out, an error, or no byte sent. -/
theorem writeLoop_exn (h : sent < msg.length) (hturn : turn.exn = some e) :
    writeLoop msg sent stream (turn :: turns) = ⟨.raised e, stream, turns⟩ := by
  rcases SocketTurn.of_exn hturn with ⟨rfl, rfl⟩ | ⟨rfl, rfl⟩ | ⟨rfl, rfl⟩
  · rw [writeLoop, if_pos h]
  · rw [writeLoop, if_pos h]
  · rw [writeLoop, if_pos h]
    dsimp only
    rw [if_pos (Nat.zero_min _)]

theorem writeLoop_passes {n : Nat} (h : sent < msg.length) (hn : 0 < n) :
    ∃ m, sent < m ∧ m ≤ msg.length ∧ ∀ turns, writeLoop msg sent (stream ++ msg.take sent)
      (.passes n :: turns) = writeLoop msg m (stream ++ msg.take m) turns := by
  have hlength : (msg.drop sent).length = msg.length - sent := List.length_drop
  refine ⟨sent + min n (msg.drop sent).length, by omega, by omega, fun turns => ?_⟩
  rw [writeLoop, if_pos h]
  dsimp only
  rw [if_neg (by omega), List.take_add, List.append_assoc]

theorem readLoop_done : readLoop 0 parts stream turns = ⟨.returned parts.flatten, stream, turns⟩ := by
  cases turns with
  | nil =>
    rw [readLoop]
    exact if_neg (lt_irrefl 0)
  | cons turn turns =>
    cases turn <;>
    · rw [readLoop]
      exact if_neg (lt_irrefl 0)

theorem readLoop_wants (h : 0 < remaining) :
    readLoop remaining parts stream (.wants :: turns) = readLoop remaining parts stream turns := by
  rw [readLoop, if_pos h]

/-- A time-out, an error, or an empty chunk. -/
theorem readLoop_exn (h : 0 < remaining) (hturn : turn.exn = some e) :
    readLoop remaining parts stream (turn :: turns) = ⟨.raised e, stream, turns⟩ := by
  rcases SocketTurn.of_exn hturn with ⟨rfl, rfl⟩ | ⟨rfl, rfl⟩ | ⟨rfl, rfl⟩
  · rw [readLoop, if_pos h]
  · rw [readLoop, if_pos h]
  · rw [readLoop, if_pos h]
    dsimp only
    rw [Nat.zero_min, List.take_zero, if_pos rfl]

/-- How the bytes are divided into parts does not matter. -/
theorem readLoop_congr {parts parts' : List Bytes} (h : parts.flatten = parts'.flatten) :
    readLoop remaining parts stream turns = readLoop remaining parts' stream turns := by
  induction turns generalizing remaining parts parts' stream with
  | nil => rw [readLoop, readLoop, h]
  | cons turn turns ih =>
    by_cases hremaining : 0 < remaining
    · cases turn with
      | timeout => rw [readLoop, readLoop, h]
      | wants => rw [readLoop_wants hremaining, readLoop_wants hremaining, ih h]
      | fails => rw [readLoop, readLoop, h]
      | passes n =>
        have hparts : (parts ++ [stream.take (min n remaining)]).flatten =
            (parts' ++ [stream.take (min n remaining)]).flatten := by
          rw [List.flatten_append, List.flatten_append, h]
        rw [readLoop, readLoop, h]
        dsimp only
        rw [ih hparts]
    · obtain rfl : remaining = 0 := by omega
      rw [readLoop_done, readLoop_done, h]

/-- A chunk of the `data` in front of the stream. -/
theorem readLoop_passes {data : Bytes} {received n : Nat} (h : received < data.length)
    (hn : 0 < n) :
    ∃ m, received < m ∧ m ≤ data.length ∧ ∀ turns,
      readLoop (data.length - received) [data.take received] (data.drop received ++ more)
        (.passes n :: turns) =
      readLoop (data.length - m) [data.take m] (data.drop m ++ more) turns := by
  have hlength : (data.drop received).length = data.length - received := List.length_drop
  have hmin : min n (data.length - received) ≤ (data.drop received).length := by omega
  have hchunk : ((data.drop received).take (min n (data.length - received))).length =
      min n (data.length - received) := by
    rw [List.length_take]
    omega
  refine ⟨received + min n (data.length - received), by omega, by omega, fun turns => ?_⟩
  rw [readLoop, if_pos (by omega)]
  dsimp only
  rw [List.take_append_of_le_length hmin, hchunk, if_neg, List.drop_append_of_le_length hmin,
    List.drop_drop, Nat.sub_sub]
  · apply readLoop_congr
    simp [List.take_add]
  · intro hnil
    rw [hnil, List.length_nil] at hchunk
    omega

/-- The peer has closed the connection, and what it had sent has been received. -/
theorem readLoop_closed {n : Nat} (h : 0 < remaining) :
    readLoop remaining parts [] (.passes n :: turns) = ⟨.raised .connectionDropped, [], turns⟩ := by
  rw [readLoop, if_pos h]
  dsimp only
  rw [List.take_nil, if_pos rfl]

end Loops

/-- `_write` sends the message, whatever the socket takes at a time. -/
theorem carries_write (msg stream : Bytes) :
    Paced.Carries SocketTurn.exn SocketTurn.moves (write msg) () (fun n => stream ++ msg.take n)
      msg.length := by
  have hloop : Paced.Carries SocketTurn.exn SocketTurn.moves (writeLoop msg 0) ()
      (fun n => stream ++ msg.take n) msg.length := by
    apply Paced.carries_loop (fun turns => writeLoop_done (le_refl _))
    · intro n hn
      rw [writeLoop, if_pos hn]
    · intro n hn turn e hturn turns
      exact writeLoop_exn hn hturn
    · intro n hn turn hexn hmoves turns
      obtain rfl := SocketTurn.of_keeps hexn hmoves
      exact writeLoop_wants hn
    · intro n hn turn hexn hmoves
      obtain ⟨m, hm, rfl⟩ := SocketTurn.of_moves hmoves
      exact writeLoop_passes hn hm
  exact hloop

/-- `_read` takes as much from the stream as it is asked for, whatever the socket yields at a
time. -/
theorem carries_read (data more : Bytes) :
    Paced.Carries SocketTurn.exn SocketTurn.moves (read data.length) data
      (fun n => data.drop n ++ more) data.length := by
  have hloop : Paced.Carries SocketTurn.exn SocketTurn.moves
      (readLoop (data.length - 0) [data.take 0]) data (fun n => data.drop n ++ more)
      data.length := by
    apply Paced.carries_loop (x := fun n => readLoop (data.length - n) [data.take n])
    · intro turns
      rw [Nat.sub_self, readLoop_done, List.take_length]
      simp
    · intro n hn
      rw [readLoop, if_pos (by omega)]
    · intro n hn turn e hturn turns
      exact readLoop_exn (by omega) hturn
    · intro n hn turn hexn hmoves turns
      obtain rfl := SocketTurn.of_keeps hexn hmoves
      exact readLoop_wants (by omega)
    · intro n hn turn hexn hmoves
      obtain ⟨m, hm, rfl⟩ := SocketTurn.of_moves hmoves
      exact readLoop_passes hn hm
  have hread : read data.length = readLoop (data.length - 0) [data.take 0] := by
    funext stream turns
    exact readLoop_congr (by simp)
  rwa [hread]

/-! ## Messages -/

theorem frame_eq_ok {b msg : Bytes} (h : frame b = .ok msg) :
    ∃ header, intPack b.length = .ok header ∧ msg = header ++ b := by
  obtain ⟨header, hheader, h⟩ := bind_eq_ok h
  exact ⟨header, hheader, (pure_inj h).symm⟩

theorem frame_of_lt {b : Bytes} (h : b.length < 2 ^ 31) : ∃ msg, frame b = .ok msg := by
  have hfits : FitsWidth 4 b.length := ⟨by omega, by omega⟩
  rw [frame, intPack, structPack, if_pos hfits]
  exact ⟨_, rfl⟩

theorem writeMany_frame {msgs : List Bytes} (h : ∀ b ∈ msgs, b.length < 2 ^ 31) :
    ∃ frames, writeMany frame msgs = .ok frames := by
  induction msgs with
  | nil => exact ⟨[], rfl⟩
  | cons b msgs ih =>
    obtain ⟨msg, hmsg⟩ := frame_of_lt (h b List.mem_cons_self)
    obtain ⟨rest, hrest⟩ := ih fun b' hb' => h b' (List.mem_cons_of_mem b hb')
    rw [writeMany, hmsg, hrest]
    exact ⟨_, rfl⟩

theorem carries_writeMessages {msgs : List Bytes} {frames : Bytes}
    (h : writeMany frame msgs = .ok frames) (stream : Bytes) :
    Paced.Carries SocketTurn.exn SocketTurn.moves (writeMessages msgs) ()
      (fun n => stream ++ frames.take n) frames.length := by
  induction msgs generalizing frames stream with
  | nil =>
    obtain rfl := pure_inj h
    exact Paced.carries_ret
  | cons b msgs ih =>
    obtain ⟨msg, hmsg, h⟩ := bind_eq_ok h
    obtain ⟨rest, hrest, h⟩ := bind_eq_ok h
    obtain rfl := pure_inj h
    apply Paced.Carries.ofExcept_bind hmsg
    apply (carries_write msg stream).bind (ih hrest (stream ++ msg)) List.length_append.symm
    · intro n hn
      rw [List.take_append_of_le_length hn]
    · intro n _
      rw [List.take_length_add_append, List.append_assoc]

/-- `_read_header` takes one message from the stream, and nothing of what follows it. -/
theorem carries_readMessage {b msg : Bytes} (h : frame b = .ok msg) (more : Bytes) :
    Paced.Carries SocketTurn.exn SocketTurn.moves readMessage b (fun n => msg.drop n ++ more)
      msg.length := by
  obtain ⟨header, hheader, rfl⟩ := frame_eq_ok h
  have hfour : (header.length : Int) = 4 := by rw [intPack_length hheader]; rfl
  have hlength : intUnpackFrom header 0 = .ok b.length :=
    intUnpackFrom_located hheader (.start header)
  have hread := carries_read header (b ++ more)
  rw [hfour] at hread
  apply hread.bind (.ofExcept_bind hlength (carries_read b more)) List.length_append.symm
  · intro n hn
    rw [List.drop_append_of_le_length hn, List.append_assoc]
  · intro n _
    rw [List.drop_length_add_append]

theorem carries_readMessages {msgs : List Bytes} {frames : Bytes}
    (h : writeMany frame msgs = .ok frames) (more : Bytes) :
    Paced.Carries SocketTurn.exn SocketTurn.moves (readMessages msgs.length) msgs
      (fun n => frames.drop n ++ more) frames.length := by
  induction msgs generalizing frames with
  | nil =>
    obtain rfl := pure_inj h
    exact Paced.carries_ret
  | cons b msgs ih =>
    obtain ⟨msg, hmsg, h⟩ := bind_eq_ok h
    obtain ⟨rest, hrest, h⟩ := bind_eq_ok h
    obtain rfl := pure_inj h
    have hothers : Paced.Carries SocketTurn.exn SocketTurn.moves (do
        let bs ← readMessages msgs.length
        return b :: bs) (b :: msgs) (fun n => rest.drop n ++ more) rest.length :=
      (ih hrest).bind Paced.carries_ret (Nat.add_zero _) (fun n _ => rfl) (fun n _ => rfl)
    apply (carries_readMessage hmsg (rest ++ more)).bind hothers List.length_append.symm
    · intro n hn
      rw [List.drop_append_of_le_length hn, List.append_assoc]
    · intro n _
      rw [List.drop_length_add_append]

/-- Messages that are submitted one after the other are on the stream once and in order, in front of
them what was there before, and are read back as they were, and nothing of what stands behind them;
while they wait, the bytes that have gone are the first ones.  Turns that want and turns that pass a
byte at least come to the end, and any other turn raises. -/
theorem framing_survives {msgs : List Bytes} (h : ∀ b ∈ msgs, b.length < 2 ^ 31) :
    ∃ frames, writeMany frame msgs = .ok frames ∧
      (∀ stream, Paced.Carries SocketTurn.exn SocketTurn.moves (writeMessages msgs) ()
        (fun n => stream ++ frames.take n) frames.length) ∧
      (∀ more, Paced.Carries SocketTurn.exn SocketTurn.moves (readMessages msgs.length) msgs
        (fun n => frames.drop n ++ more) frames.length) ∧
      ∀ turns turns' : List SocketTurn, (∀ turn ∈ turns ++ turns', turn.exn = none) →
        frames.length ≤ turns.countP SocketTurn.moves →
        frames.length ≤ turns'.countP SocketTurn.moves →
        ∃ rest rest', writeMessages msgs [] turns = ⟨.returned (), frames, rest⟩ ∧
          readMessages msgs.length frames turns' = ⟨.returned msgs, [], rest'⟩ := by
  obtain ⟨frames, hframes⟩ := writeMany_frame h
  have hwrite := carries_writeMessages hframes
  have hread := carries_readMessages hframes
  refine ⟨frames, hframes, hwrite, hread, fun turns turns' hturns hmany hmany' => ?_⟩
  obtain ⟨rest, hrest⟩ := (hwrite []).returns
    (fun turn hturn => hturns turn (List.mem_append_left turns' hturn)) hmany
  obtain ⟨rest', hrest'⟩ := (hread []).returns
    (fun turn hturn => hturns turn (List.mem_append_right turns hturn)) hmany'
  refine ⟨rest, rest', ?_, ?_⟩
  · rwa [List.take_zero, List.append_nil, List.nil_append, List.take_length] at hrest
  · rwa [List.drop_zero, List.append_nil, List.append_nil, List.drop_length] at hrest'

/-- Two messages, of which one is empty. -/
theorem framing_survives_two : ∃ frames, writeMany frame [[1, 2], []] = .ok frames ∧
    ∃ rest, readMessages 2 frames ((List.replicate 10 (.passes 1)) ++ [.wants]) =
      ⟨.returned [[1, 2], []], [], rest⟩ := by
  have hsmall : ∀ b ∈ ([[1, 2], []] : List Bytes), b.length < 2 ^ 31 := by decide
  obtain ⟨frames, hframes, -, -, hboth⟩ := framing_survives hsmall
  have hfour : frames.length = 10 := by
    have hknown : writeMany frame [[1, 2], []] = .ok [0, 0, 0, 2, 1, 2, 0, 0, 0, 0] := by
      decide +kernel
    rw [Except.ok.inj (hframes.symm.trans hknown)]
    rfl
  obtain ⟨-, rest, -, hread⟩ := hboth (List.replicate 10 (.passes 7))
    (List.replicate 10 (.passes 1) ++ [.wants]) (by decide) (by rw [hfour]; decide)
    (by rw [hfour]; decide)
  exact ⟨frames, hframes, rest, hread⟩

end Kazoo
