import Veloce.Collections.Decoder
import Veloce.Collections.Frames
import Veloce.Collections.Run
import Veloce.Handlers.StepWaiters

/-! The answer to a launch is a stream: the output of the step in frames as it comes, and its exit
code in a last frame. -/

namespace Veloce

open Collections

def i32Bytes (value : Int) : List UInt8 := toBeBytes 4 (BitVec.ofInt 32 value).toNat

def i32OfBytes (bytes : List UInt8) : Int := (BitVec.ofNat 32 (fromBeBytes bytes)).toInt

private theorem i32OfBytes_i32Bytes {value : Int} (range : -2 ^ 31 ≤ value ∧ value < 2 ^ 31) :
    i32OfBytes (i32Bytes value) = value := by
  have small : (BitVec.ofInt 32 value).toNat < 256 ^ 4 := (BitVec.ofInt 32 value).isLt
  rw [i32OfBytes, i32Bytes, fromBeBytes_toBeBytes small, BitVec.ofNat_toNat, BitVec.setWidth_eq]
  exact BitVec.toInt_ofInt_eq_self (by norm_num) range.1 range.2

def dataFrame (chunk : StepChunk) : List UInt8 :=
  (if chunk.1 then 2 else 1) :: toBeBytes 4 (asU32 chunk.2.length) ++ chunk.2

def exitFrame (code : Int) : List UInt8 := 3 :: toBeBytes 4 4 ++ i32Bytes code

/-- The stream of a launch, with what it has put into the body. -/
structure LaunchStream where
  board : StepBoard
  body : List (List UInt8) := []
  finished : Bool := false

/-- The controller handles a message, or the stream is polled and takes one of its branches. -/
inductive StreamEvent where
  | handle (msg : StepMessage)
  | output
  | exit

namespace LaunchStream

variable (key : StepKey) (waiter : Nat)

/-- What `wait_rx` yields: the code, -1 if its sender is gone, or nothing yet. -/
def exitCode (board : StepBoard) : Option Int :=
  match board.codes waiter with
  | code :: _ => some code
  | [] => if waiter ∈ board.stepWaiters.getD key [] then none else some (-1)

def finish (stream : LaunchStream) (rest : List StepChunk) (code : Int) : LaunchStream :=
  { board := { stream.board with outputs := stream.board.outputs.insert waiter [] }
    body := stream.body ++ [rest.flatMap dataFrame ++ exitFrame code]
    finished := true }

/-- `none` if the branch is not ready. A closed channel without messages leaves only the code
to wait for. -/
def apply (event : StreamEvent) (stream : LaunchStream) : Option LaunchStream :=
  match event with
  | .handle msg => some { stream with board := stream.board.handle msg }
  | .output =>
    if stream.finished then none
    else match stream.board.outputs.get? waiter with
      | some (chunk :: rest) =>
        some { stream with
          board := { stream.board with outputs := stream.board.outputs.insert waiter rest }
          body := stream.body ++ [dataFrame chunk] }
      | some [] =>
        if waiter ∈ stream.board.stepOutputWaiters.getD key [] then none
        else (exitCode key waiter stream.board).map (stream.finish waiter [])
      | none => none
  | .exit =>
    if stream.finished then none
    else (exitCode key waiter stream.board).map
      (stream.finish waiter ((stream.board.outputs.get? waiter).getD []))

end LaunchStream

/-- What `veloce-exec` has written, and the streams of the frames it has decoded. -/
structure ExecOutput where
  stdout : List UInt8 := []
  stderr : List UInt8 := []
  exitCode : Int := 0
  decoded : List UInt8 := []

structure Exec where
  buffer : List UInt8 := []
  output : ExecOutput := {}

def nextFrame : List UInt8 → Option ((UInt8 × List UInt8) × List UInt8)
  | streamType :: b1 :: b2 :: b3 :: b4 :: rest =>
    let len := fromBeBytes [b1, b2, b3, b4]
    if rest.length < len then none else some ((streamType, rest.take len), rest.drop len)
  | _ => none

def frameCutter : Cutter UInt8 (UInt8 × List UInt8) where
  next := nextFrame
  shorter {input rest frame} found := by
    unfold nextFrame at found
    split at found
    · simp only at found
      split at found
      · cases found
      · cases found
        simp only [List.length_drop, List.length_cons]
        omega
    · cases found
  stable {input _ frame} more found := by
    unfold nextFrame at found
    split at found
    · rename_i streamType b1 b2 b3 b4 rest
      simp only at found
      split at found
      · cases found
      · rename_i enough
        cases found
        have enough' : ¬ (rest ++ more).length < fromBeBytes [b1, b2, b3, b4] := by
          rw [List.length_append]
          omega
        simp only [List.cons_append, nextFrame, enough', ↓reduceIte]
        rw [List.take_append_of_le_length (by omega), List.drop_append_of_le_length (by omega)]
    · cases found

def ExecOutput.frame (output : ExecOutput) (frame : UInt8 × List UInt8) : ExecOutput :=
  let decoded := { output with decoded := output.decoded ++ [frame.1] }
  if frame.1 = 1 then { decoded with stdout := output.stdout ++ frame.2 }
  else if frame.1 = 2 then { decoded with stderr := output.stderr ++ frame.2 }
  else if frame.1 = 3 ∧ frame.2.length = 4 then { decoded with exitCode := i32OfBytes frame.2 }
  else decoded

def Exec.fragment (exec : Exec) (chunk : List UInt8) : Exec :=
  let (frames, buffer) := frameCutter.cutAll (exec.buffer ++ chunk)
  { buffer, output := frames.foldl ExecOutput.frame exec.output }

/-- The body of the answer as it comes: the milliseconds since the request and the bytes of each
fragment, and when it ends. -/
structure BodyArrival where
  fragments : List (Nat × List UInt8)
  ended : Nat

def BodyArrival.bytes (body : BodyArrival) : List UInt8 := (body.fragments.map Prod.snd).flatten

/-- The hour that the request may take in all. -/
def requestTimeout : Nat := 3600000

/-- The loop over the body; false if an error of the stream ends it. -/
def Exec.receive (ended : Nat) : List (Nat × List UInt8) → Exec → Exec × Bool
  | [], exec => (exec, decide (ended < requestTimeout))
  | (time, chunk) :: rest, exec =>
    if time < requestTimeout then Exec.receive ended rest (exec.fragment chunk) else (exec, false)

def textBytes (text : String) : List UInt8 := text.toList.flatMap String.utf8EncodeChar

/-- The first line on stderr, with what `:?` makes of the arguments. -/
def argsLine (debugArgs : String) : List UInt8 := textBytes ("veloce-exec: args: " ++ debugArgs ++ "\n")

/-- What the runtime prints of an error that `main` returns. -/
def errorReport (cause : String) : List UInt8 :=
  textBytes ("Error: Error reading response stream\n\nCaused by:\n    " ++ cause ++ "\n")

/-- What a parent sees of `veloce-exec`: its two streams, the frames it has decoded and its status. -/
structure ExecEnd where
  stdout : List UInt8
  stderr : List UInt8
  decoded : List UInt8
  status : Nat
deriving DecidableEq

/-- `main` once a launch is accepted. Of the code that `process::exit` is called with, a status has
the last eight bits. -/
def Exec.main (debugArgs cause : String) (body : BodyArrival) : ExecEnd :=
  let (exec, whole) := Exec.receive body.ended body.fragments { output := { stderr := argsLine debugArgs } }
  { stdout := exec.output.stdout
    stderr := exec.output.stderr ++ if whole then [] else errorReport cause
    decoded := exec.output.decoded
    status := if whole then (exec.output.exitCode % 256).toNat else 1 }

section Decoding

/-- The fragments do not matter, only the bytes. -/
private theorem foldl_fragment (fragments : List (List UInt8)) (output : ExecOutput) :
    fragments.foldl Exec.fragment { output } = {
      buffer := (frameCutter.cutAll fragments.flatten).2
      output := (frameCutter.cutAll fragments.flatten).1.foldl ExecOutput.frame output } := by
  rw [← Cutter.foldl_feed]
  induction fragments using List.reverseRecOn with
  | nil => rfl
  | append_singleton fragments fragment ih =>
    rw [List.foldl_append, List.foldl_append, ih]
    simp only [Exec.fragment, List.foldl_cons, List.foldl_nil, Cutter.feed, List.foldl_append]

def BodyArrival.Timely (body : BodyArrival) : Prop :=
  (∀ fragment ∈ body.fragments, fragment.1 < requestTimeout) ∧ body.ended < requestTimeout

/-- What is received are the fragments up to the first one that is late. -/
private theorem receive_eq (ended : Nat) (fragments : List (Nat × List UInt8)) (exec : Exec) :
    ∃ received late, fragments = received ++ late ∧
      (Exec.receive ended fragments exec).1 = (received.map Prod.snd).foldl Exec.fragment exec ∧
      ((Exec.receive ended fragments exec).2 = true ↔ BodyArrival.Timely ⟨fragments, ended⟩) ∧
      ((Exec.receive ended fragments exec).2 = true → late = []) := by
  induction fragments generalizing exec with
  | nil => exact ⟨[], [], rfl, rfl, by simp [Exec.receive, BodyArrival.Timely], fun _ => rfl⟩
  | cons first rest ih =>
    obtain ⟨time, chunk⟩ := first
    by_cases early : time < requestTimeout
    · obtain ⟨received, late, split, output, timely, whole⟩ := ih (exec.fragment chunk)
      refine ⟨(time, chunk) :: received, late, by rw [split, List.cons_append], ?_, ?_, ?_⟩
      · rw [Exec.receive, if_pos early, output]
        rfl
      · rw [Exec.receive, if_pos early, timely]
        simp [BodyArrival.Timely, early]
      · rw [Exec.receive, if_pos early]
        exact whole
    · refine ⟨[], (time, chunk) :: rest, rfl, ?_, ?_, ?_⟩
      · rw [Exec.receive, if_neg early]
        rfl
      · rw [Exec.receive, if_neg early]
        simp [BodyArrival.Timely, early]
      · rw [Exec.receive, if_neg early]
        exact fun absurd => by cases absurd

/-- A frame with four bytes of length in front of the rest is read back. -/
private theorem nextFrame_frame (streamType : UInt8) {payload : List UInt8} (sized : payload.length < 2 ^ 32)
    (more : List UInt8) :
    nextFrame (streamType :: toBeBytes 4 payload.length ++ payload ++ more) = some ((streamType, payload), more) := by
  have width := length_toBeBytes 4 payload.length
  obtain ⟨b1, b2, b3, b4, bytes⟩ : ∃ b1 b2 b3 b4, toBeBytes 4 payload.length = [b1, b2, b3, b4] := by
    match toBeBytes 4 payload.length, width with
    | [b1, b2, b3, b4], _ => exact ⟨b1, b2, b3, b4, rfl⟩
  have len : fromBeBytes [b1, b2, b3, b4] = payload.length := by
    rw [← bytes]
    exact fromBeBytes_toBeBytes sized
  simp [bytes, nextFrame, len]

def streamType (chunk : StepChunk) : UInt8 := if chunk.1 then 2 else 1

private theorem nextFrame_data {chunk : StepChunk} (sized : chunk.2.length < 2 ^ 32) (more : List UInt8) :
    nextFrame (dataFrame chunk ++ more) = some ((streamType chunk, chunk.2), more) := by
  rw [dataFrame, asU32, Nat.mod_eq_of_lt sized]
  exact nextFrame_frame _ sized more

private theorem nextFrame_exit (code : Int) (more : List UInt8) :
    nextFrame (exitFrame code ++ more) = some ((3, i32Bytes code), more) := by
  have width : (i32Bytes code).length = 4 := length_toBeBytes _ _
  have short : (i32Bytes code).length < 2 ^ 32 := by
    rw [width]
    norm_num
  have read := nextFrame_frame 3 short more
  rw [width] at read
  exact read

def streamOf (isStderr : Bool) (chunks : List StepChunk) : List UInt8 :=
  (chunks.filter (·.1 = isStderr)).flatMap Prod.snd

private theorem foldl_data (chunks : List StepChunk) (output : ExecOutput) :
    (chunks.map fun chunk => (streamType chunk, chunk.2)).foldl ExecOutput.frame output = {
      stdout := output.stdout ++ streamOf false chunks
      stderr := output.stderr ++ streamOf true chunks
      exitCode := output.exitCode
      decoded := output.decoded ++ chunks.map streamType } := by
  induction chunks generalizing output with
  | nil => simp [streamOf]
  | cons chunk rest ih =>
    obtain ⟨isStderr, data⟩ := chunk
    rw [List.map_cons, List.foldl_cons, ih]
    cases isStderr <;> simp [ExecOutput.frame, streamOf, streamType]

variable {chunks : List StepChunk} {code : Int}

private theorem cutAll_frames (sized : ∀ chunk ∈ chunks, chunk.2.length < 2 ^ 32) :
    frameCutter.cutAll (chunks.flatMap dataFrame ++ exitFrame code) =
      ((chunks.map fun chunk => (streamType chunk, chunk.2)) ++ [(3, i32Bytes code)], []) := by
  have data : frameCutter.cutAll (chunks.flatMap dataFrame) =
      (chunks.map fun chunk => (streamType chunk, chunk.2), []) :=
    Cutter.cutAll_flatMap fun chunk member more => nextFrame_data (sized chunk member) more
  have last : frameCutter.cutAll (exitFrame code) = ([(3, i32Bytes code)], []) := by
    have read : frameCutter.next (exitFrame code) = some ((3, i32Bytes code), []) := by
      have read := nextFrame_exit code []
      rw [List.append_nil] at read
      exact read
    rw [Cutter.cutAll_some read, Cutter.cutAll_none Cutter.next_nil]
  rw [Cutter.cutAll_append, data, Cutter.feed, List.nil_append, last]

private theorem foldl_frames (range : -2 ^ 31 ≤ code ∧ code < 2 ^ 31) (output : ExecOutput) :
    ((chunks.map fun chunk => (streamType chunk, chunk.2)) ++ [(3, i32Bytes code)]).foldl
      ExecOutput.frame output = {
        stdout := output.stdout ++ streamOf false chunks
        stderr := output.stderr ++ streamOf true chunks
        exitCode := code
        decoded := output.decoded ++ chunks.map streamType ++ [3] } := by
  have width : (i32Bytes code).length = 4 := length_toBeBytes _ _
  rw [List.foldl_append, foldl_data]
  simp [ExecOutput.frame, width, i32OfBytes_i32Bytes range]

private theorem foldl_decoded (frames : List (UInt8 × List UInt8)) (output : ExecOutput) :
    (frames.foldl ExecOutput.frame output).decoded = output.decoded ++ frames.map Prod.fst := by
  induction frames generalizing output with
  | nil => simp
  | cons frame rest ih =>
    have first : (output.frame frame).decoded = output.decoded ++ [frame.1] := by
      simp only [ExecOutput.frame]
      split
      · rfl
      · split
        · rfl
        · split <;> rfl
    rw [List.foldl_cons, ih, first, List.map_cons, List.append_assoc, List.singleton_append]

/-- The output of a step, behind a line on stderr; one exit frame, as the last one; and its code. -/
structure ExecEnd.Repeats (done : ExecEnd) (line : List UInt8) (chunks : List StepChunk) (code : Int) : Prop where
  stdout : done.stdout = streamOf false chunks
  stderr : done.stderr = line ++ streamOf true chunks
  decoded : done.decoded = chunks.map streamType ++ [3]
  status : (done.status : Int) = code

private theorem errorReport_ne (cause : String) : errorReport cause ≠ [] := by
  rw [errorReport, textBytes, String.toList_append, String.toList_append, List.flatMap_append, List.flatMap_append]
  intro none
  have first := (List.append_eq_nil_iff.mp (List.append_eq_nil_iff.mp none).1).1
  revert first
  decide +kernel

private theorem argsLine_ne (debugArgs : String) : argsLine debugArgs ≠ [] := by
  rw [argsLine, textBytes, String.toList_append, String.toList_append, List.flatMap_append, List.flatMap_append]
  intro none
  have first := (List.append_eq_nil_iff.mp (List.append_eq_nil_iff.mp none).1).1
  revert first
  decide +kernel

/-- If all frames are decoded, both streams have what the step wrote, and stderr an error behind it if
the rest of the body was late. All are decoded of a body that comes in time. -/
private theorem main_eq {body : BodyArrival} (debugArgs cause : String) (sized : ∀ chunk ∈ chunks, chunk.2.length < 2 ^ 32)
    (range : -2 ^ 31 ≤ code ∧ code < 2 ^ 31) (whole : body.bytes = chunks.flatMap dataFrame ++ exitFrame code)
    (decoded : body.Timely ∨ (Exec.main debugArgs cause body).decoded = chunks.map streamType ++ [3]) :
    ∃ late, (late = [] ↔ body.Timely) ∧ Exec.main debugArgs cause body = {
      stdout := streamOf false chunks
      stderr := argsLine debugArgs ++ streamOf true chunks ++ late
      decoded := chunks.map streamType ++ [3]
      status := if late = [] then (code % 256).toNat else 1 } := by
  obtain ⟨received, missing, split, output, timely, none⟩ :=
    receive_eq body.ended body.fragments { output := { stderr := argsLine debugArgs } }
  rw [foldl_fragment] at output
  have found : (frameCutter.cutAll (received.map Prod.snd).flatten).1 =
      (chunks.map fun chunk => (streamType chunk, chunk.2)) ++ [(3, i32Bytes code)] := by
    rcases decoded with inTime | types
    · have same : (received.map Prod.snd).flatten = chunks.flatMap dataFrame ++ exitFrame code := by
        rw [← whole, BodyArrival.bytes, split, none (timely.mpr inTime), List.append_nil]
      rw [same, cutAll_frames sized]
    · -- the frames of what was received are the first ones of all frames, and as many
      have parts := @cutAll_frames chunks code sized
      rw [← whole, BodyArrival.bytes, split, List.map_append, List.flatten_append, Cutter.cutAll_append, Cutter.feed] at parts
      have all := congrArg Prod.fst parts
      have shown : (Exec.main debugArgs cause body).decoded = _ := (congrArg (·.output.decoded) output).trans (foldl_decoded _ _)
      have count := congrArg List.length (shown.symm.trans types)
      simp only [List.length_append, List.length_map, List.length_nil, List.length_singleton, Nat.zero_add] at count
      refine List.IsPrefix.eq_of_length ⟨_, all⟩ ?_
      rw [count, List.length_append, List.length_map, List.length_singleton]
  rw [found, foldl_frames range] at output
  refine ⟨if (Exec.receive body.ended body.fragments { output := { stderr := argsLine debugArgs } }).2 then [] else errorReport cause,
    ?_, ?_⟩
  · rw [← timely]
    split
    · simp_all
    · simp_all [errorReport_ne]
  · have shape := congrArg Exec.output output
    simp only [Exec.main, shape, List.nil_append, ExecEnd.mk.injEq, true_and]
    split <;> simp [errorReport_ne]

/-- The line on stderr is never left out. Apart from it the step is repeated exactly if the body
comes in time and a status can have its code. -/
private theorem main_repeats_iff {body : BodyArrival} (debugArgs cause : String)
    (sized : ∀ chunk ∈ chunks, chunk.2.length < 2 ^ 32) (range : -2 ^ 31 ≤ code ∧ code < 2 ^ 31)
    (whole : body.bytes = chunks.flatMap dataFrame ++ exitFrame code) :
    ¬ (Exec.main debugArgs cause body).Repeats [] chunks code ∧
      ((Exec.main debugArgs cause body).Repeats (argsLine debugArgs) chunks code ↔ body.Timely ∧ 0 ≤ code ∧ code < 256) := by
  refine ⟨fun repeats => ?_, fun repeats => ?_, fun holds => ?_⟩
  · obtain ⟨late, _, shape⟩ := main_eq debugArgs cause sized range whole (.inr repeats.decoded)
    have lengths := congrArg List.length ((congrArg ExecEnd.stderr shape).symm.trans repeats.stderr)
    have positive := List.length_pos_iff.mpr (argsLine_ne debugArgs)
    simp only [List.length_append, List.length_nil] at lengths
    omega
  · obtain ⟨late, timely, shape⟩ := main_eq debugArgs cause sized range whole (.inr repeats.decoded)
    have stderr := (congrArg ExecEnd.stderr shape).symm.trans repeats.stderr
    have nothing : late = [] := List.append_right_eq_self.mp stderr
    have status := repeats.status
    rw [shape, if_pos nothing] at status
    dsimp only at status
    exact ⟨timely.mp nothing, by omega, by omega⟩
  · obtain ⟨late, timely, shape⟩ := main_eq debugArgs cause sized range whole (.inl holds.1)
    have nothing := timely.mpr holds.1
    rw [shape, nothing]
    refine ⟨rfl, List.append_nil _, rfl, ?_⟩
    simp only [if_true]
    omega

end Decoding

def StepMessage.chunk (key : StepKey) : StepMessage → Option StepChunk
  | .stepOutput about isStderr data => if about = key then some (isStderr, data) else none
  | .stepStarted _ | .stepDone _ _ | .stepError _ _ => none

theorem StepMessage.chunk_of_ending {key : StepKey} {msg : StepMessage} {code : Int} (ends : msg.ending key = some code) :
    msg.chunk key = none := by
  cases msg with
  | stepOutput about isStderr data => cases ends
  | _ => rfl

/-- The output of a step until its end and the code of its end, by the messages handled. -/
def hear (key : StepKey) (heard : List StepChunk × Option Int) (msg : StepMessage) : List StepChunk × Option Int :=
  match heard.2 with
  | some _ => heard
  | none => (heard.1 ++ (msg.chunk key).toList, msg.ending key)

/-- Where a launch waits for a step that has not ended. -/
def ownerOf (key : StepKey) : Option Int → Option StepKey
  | none => some key
  | some _ => none

/-- The stream has put into its body what the controller heard, but for what is still unread. -/
structure Relays (key : StepKey) (waiter : Nat) (stream : LaunchStream) (heard : List StepChunk × Option Int) :
    Prop where
  waits : Listed stream.board.stepWaiters waiter (ownerOf key heard.2)
  listens : Listed stream.board.stepOutputWaiters waiter (ownerOf key heard.2)
  told : stream.board.codes waiter = heard.2.toList
  receives : ∃ queue, stream.board.outputs.get? waiter = some queue ∧
    (stream.finished = false → stream.body.flatten ++ queue.flatMap dataFrame = heard.1.flatMap dataFrame)
  ends : stream.finished = true → ∃ code, heard.2 = some code ∧
    stream.body.flatten = heard.1.flatMap dataFrame ++ exitFrame code

section Board

variable {board : StepBoard} {waiter : Nat} {owner : Option StepKey}

private theorem get?_pushAll (chunk : StepChunk) (waiters : List Nat) (outputs : HashMap Nat (List StepChunk)) (waiter : Nat) :
    (waiters.foldl (fun outputs waiter => StepBoard.push outputs waiter chunk) outputs).get? waiter =
      (outputs.get? waiter).map (· ++ List.replicate (waiters.count waiter) chunk) := by
  induction waiters generalizing outputs with
  | nil => simp
  | cons first rest ih =>
    rw [List.foldl_cons, ih, StepBoard.push, HashMap.get?_modify, List.count_cons]
    by_cases same : first = waiter
    · subst same
      simp only [↓reduceIte, Option.map_map, beq_self_eq_true]
      congr 1
      funext queue
      simp [List.replicate_succ]
    · simp [same, Ne.symm same]

private theorem forward_outputs (listens : Listed board.stepOutputWaiters waiter owner) {queue : List StepChunk}
    (receives : board.outputs.get? waiter = some queue) (key : StepKey) (chunk : StepChunk) :
    (board.forward key chunk).outputs.get? waiter = some (queue ++ if owner = some key then [chunk] else []) ∧
      Listed (board.forward key chunk).stepOutputWaiters waiter owner := by
  have count := listens key
  unfold StepBoard.forward
  cases found : board.stepOutputWaiters.get? key with
  | none =>
    rw [HashMap.getD, found] at count
    have other : owner ≠ some key := by
      intro own
      simp [own] at count
    exact ⟨by simp [other, receives], listens⟩
  | some waiters =>
    rw [HashMap.getD, found, Option.getD_some] at count
    refine ⟨?_, listens.replace ?_⟩
    · simp only [get?_pushAll, receives, count]
      split <;> simp
    · have alive : board.outputs.contains waiter = true := HashMap.contains_iff.mpr ⟨queue, receives⟩
      rw [List.count_filter alive, HashMap.getD, found, Option.getD_some]

theorem handle_outputs (listens : Listed board.stepOutputWaiters waiter owner) {queue : List StepChunk}
    (receives : board.outputs.get? waiter = some queue) (msg : StepMessage) :
    (board.handle msg).outputs.get? waiter = some (queue ++ (owner.bind (msg.chunk ·)).toList) ∧
      Listed (board.handle msg).stepOutputWaiters waiter (owner.filter fun key => (msg.ending key).isNone) := by
  have ended (key : StepKey) (code : Int) : (owner.filter (· ≠ key)) =
      owner.filter fun own => (if key = own then some code else none).isNone := by
    cases owner with
    | none => rfl
    | some own => by_cases same : key = own <;> simp [Option.filter, same, Ne.symm]
  have silent (queue : List StepChunk) (msg : StepMessage) (none : ∀ key, msg.chunk key = none) :
      some queue = some (queue ++ (owner.bind (msg.chunk ·)).toList) := by
    cases owner <;> simp [none]
  cases msg with
  | stepStarted key =>
    refine ⟨receives.trans (silent queue _ fun _ => rfl), ?_⟩
    cases owner <;> exact listens
  | stepDone key exitCode =>
    refine ⟨receives.trans (silent queue _ fun _ => rfl), ?_⟩
    have rest := listens.remove key
    rw [ended key exitCode] at rest
    exact rest
  | stepError key error =>
    refine ⟨receives.trans (silent queue _ fun _ => rfl), ?_⟩
    have rest := listens.remove key
    rw [ended key (-1)] at rest
    exact rest
  | stepOutput key isStderr data =>
    obtain ⟨pushed, listens'⟩ := forward_outputs listens receives key (isStderr, data)
    refine ⟨pushed.trans ?_, ?_⟩
    · cases owner with
      | none => rfl
      | some own => by_cases same : key = own <;> simp [StepMessage.chunk, same, Ne.symm]
    · cases owner <;> exact listens'

end Board

namespace Relays

variable {key : StepKey} {waiter : Nat} {stream next : LaunchStream} {heard : List StepChunk × Option Int}

theorem handle (valid : Relays key waiter stream heard) (msg : StepMessage) :
    Relays key waiter { stream with board := stream.board.handle msg } (hear key heard msg) := by
  obtain ⟨codes, waits⟩ := StepBoard.handle_codes valid.waits msg
  obtain ⟨queue, receives, sent⟩ := valid.receives
  obtain ⟨outputs, listens⟩ := handle_outputs valid.listens receives msg
  obtain ⟨chunks, ended⟩ := heard
  cases ended with
  | some code =>
    refine ⟨waits, listens, ?_, ⟨queue, ?_, sent⟩, valid.ends⟩
    · rw [codes, valid.told]
      rfl
    · simpa [ownerOf] using outputs
  | none =>
    have owner : (ownerOf key none).filter (fun key => (msg.ending key).isNone) = ownerOf key (msg.ending key) := by
      cases ends : msg.ending key <;> simp [ownerOf, Option.filter, ends]
    rw [owner] at waits listens
    refine ⟨waits, listens, ?_, ⟨_, outputs, fun running => ?_⟩, fun done => ?_⟩
    · rw [codes, valid.told]
      rfl
    · simp only [List.flatMap_append, hear, ownerOf, Option.bind_some]
      rw [← List.append_assoc, sent running]
    · obtain ⟨code, same, _⟩ := valid.ends done
      cases same

private theorem exitCode_eq (valid : Relays key waiter stream heard) :
    LaunchStream.exitCode key waiter stream.board = heard.2 := by
  unfold LaunchStream.exitCode
  rw [valid.told]
  cases ended : heard.2 with
  | some code => rfl
  | none =>
    have listed := valid.waits key
    rw [ended, ownerOf, if_pos rfl] at listed
    have member : waiter ∈ stream.board.stepWaiters.getD key [] := List.count_pos_iff.mp (by omega)
    simp [member]

/-- The last frame is put into the body after everything that was unread. -/
theorem finish {queue : List StepChunk} {code : Int} (valid : Relays key waiter stream heard)
    (running : stream.finished = false) (receives : stream.board.outputs.get? waiter = some queue)
    (ended : heard.2 = some code) : Relays key waiter (stream.finish waiter queue code) heard := by
  obtain ⟨queue', receives', sent⟩ := valid.receives
  rw [receives, Option.some.injEq] at receives'
  subst receives'
  refine ⟨valid.waits, valid.listens, valid.told, ⟨[], HashMap.get?_insert_self _ _ _, fun off => ?_⟩, fun _ =>
    ⟨code, ended, ?_⟩⟩
  · cases off
  · rw [LaunchStream.finish, List.flatten_append, List.flatten_singleton, ← List.append_assoc, sent running]

theorem branch (valid : Relays key waiter stream heard) {event : StreamEvent} (polled : ∀ msg, event ≠ .handle msg)
    (taken : stream.apply key waiter event = some next) :
    Relays key waiter next heard ∧ stream.finished = false ∧
      (next.finished = true ∨ ∃ chunk rest, stream.board.outputs.get? waiter = some (chunk :: rest) ∧
        next.board.outputs.get? waiter = some rest) := by
  obtain ⟨queue, receives, sent⟩ := valid.receives
  cases event with
  | handle msg => exact absurd rfl (polled msg)
  | output =>
    simp only [LaunchStream.apply, receives] at taken
    split at taken
    · cases taken
    · rename_i running
      rw [Bool.not_eq_true] at running
      cases queue with
      | cons chunk rest =>
        cases taken
        refine ⟨⟨valid.waits, valid.listens, valid.told, ⟨rest, HashMap.get?_insert_self _ _ _, fun _ => ?_⟩, fun done => ?_⟩,
          running, .inr ⟨chunk, rest, receives, HashMap.get?_insert_self _ _ _⟩⟩
        · rw [← sent running]
          simp
        · cases running.symm.trans done
      | nil =>
        simp only at taken
        split at taken
        · cases taken
        · obtain ⟨code, ended, same⟩ := Option.map_eq_some_iff.mp taken
          subst same
          rw [valid.exitCode_eq] at ended
          exact ⟨valid.finish running receives ended, running, .inl rfl⟩
  | exit =>
    simp only [LaunchStream.apply, receives, Option.getD_some] at taken
    split at taken
    · cases taken
    · rename_i running
      rw [Bool.not_eq_true] at running
      obtain ⟨code, ended, same⟩ := Option.map_eq_some_iff.mp taken
      subst same
      rw [valid.exitCode_eq] at ended
      exact ⟨valid.finish running receives ended, running, .inl rfl⟩

end Relays

def StreamEvent.msg? : StreamEvent → Option StepMessage
  | .handle msg => some msg
  | .output | .exit => none

/-- How many messages of its channel the stream has not read. -/
def LaunchStream.unread (stream : LaunchStream) (waiter : Nat) : Nat :=
  ((stream.board.outputs.get? waiter).getD []).length

section Runs

variable {key : StepKey} {waiter : Nat} {stream final : LaunchStream} {heard : List StepChunk × Option Int}

private theorem relays_run {events : List StreamEvent} (valid : Relays key waiter stream heard)
    (ran : runLabels (LaunchStream.apply key waiter) events stream = some final) :
    Relays key waiter final ((events.filterMap StreamEvent.msg?).foldl (hear key) heard) := by
  induction events generalizing stream heard with
  | nil =>
    cases ran
    exact valid
  | cons event rest ih =>
    rw [runLabels_cons] at ran
    obtain ⟨next, taken, later⟩ := Option.bind_eq_some_iff.mp ran
    cases event with
    | handle msg =>
      cases taken
      exact ih (valid.handle msg) later
    | output => exact ih (valid.branch (fun _ other => by cases other) taken).1 later
    | exit => exact ih (valid.branch (fun _ other => by cases other) taken).1 later

theorem foldl_hear_ended (heard : List StepChunk) (code : Int) (messages : List StepMessage) :
    messages.foldl (hear key) (heard, some code) = (heard, some code) := by
  induction messages with
  | nil => rfl
  | cons msg rest ih => exact ih

private theorem foldl_hear {before after : List StepMessage} {msg : StepMessage} {code : Int}
    (running : ∀ msg ∈ before, msg.ending key = none) (ends : msg.ending key = some code) :
    (before ++ msg :: after).foldl (hear key) ([], none) = (before.filterMap (·.chunk key), some code) := by
  have early (messages : List StepMessage) (running : ∀ msg ∈ messages, msg.ending key = none) :
      messages.foldl (hear key) ([], none) = (messages.filterMap (·.chunk key), none) := by
    induction messages using List.reverseRecOn with
    | nil => rfl
    | append_singleton messages msg ih =>
      rw [List.foldl_append, ih fun msg member => running msg (List.mem_append_left _ member), List.filterMap_append]
      have runs := running msg (by simp)
      cases carried : msg.chunk key <;> simp [hear, runs, carried]
  rw [List.foldl_append, early before running, List.foldl_cons]
  change after.foldl (hear key) (before.filterMap (·.chunk key) ++ (msg.chunk key).toList, msg.ending key) = _
  rw [ends, foldl_hear_ended, StepMessage.chunk_of_ending ends]
  simp

private theorem relays_launch {order : IterOrder Unit} {apiPort : Option Nat} {state : GlobalState} {board : StepBoard}
    {request : LaunchRequest} {launched : Launched} {job : JobInfo}
    (accepted : (StepBoard.apiInternalLaunch order apiPort waiter state board request).2 = .ok launched)
    (found : state.jobs.get? request.jobId = some job)
    (fresh : Listed board.stepWaiters waiter none ∧ Listed board.stepOutputWaiters waiter none ∧ board.codes waiter = []) :
    Relays (job.id, board.nextStepId) waiter
      { board := (StepBoard.apiInternalLaunch order apiPort waiter state board request).1 } ([], none) := by
  obtain ⟨job', _, found', _, _, _, _, after⟩ := StepBoard.apiInternalLaunch_ok accepted
  rw [found, Option.some.injEq] at found'
  subst found'
  rw [after]
  refine ⟨fresh.1.add, fresh.2.1.add, fresh.2.2, ⟨[], HashMap.get?_insert_self _ _ _, fun _ => rfl⟩, fun done => ?_⟩
  cases done

/-- Once the StepDone of a launched step is handled, the stream has a branch that is ready until
it is finished, and each one shortens what is left. When it is finished, `veloce-exec` never repeats
just the output of the step, since it writes a line of its own to stderr first. Apart from this line
it does so, whatever the fragments of the body, has decoded the exit frame once and last, and ends
with the code of the step, if and only if all of the body comes within the hour and the code is one
that a status can have. -/
theorem launch_stream_repeats_iff {order : IterOrder Unit} {apiPort : Option Nat} {state : GlobalState} {board : StepBoard}
    {request : LaunchRequest} {launched : Launched} {job : JobInfo} {events : List StreamEvent}
    {before after : List StepMessage} {code : Int}
    (accepted : (StepBoard.apiInternalLaunch order apiPort waiter state board request).2 = .ok launched)
    (found : state.jobs.get? request.jobId = some job)
    (fresh : Listed board.stepWaiters waiter none ∧ Listed board.stepOutputWaiters waiter none ∧ board.codes waiter = [])
    (own : key = (job.id, board.nextStepId))
    (ran : runLabels (LaunchStream.apply key waiter) events
      { board := (StepBoard.apiInternalLaunch order apiPort waiter state board request).1 } = some stream)
    (messages : events.filterMap StreamEvent.msg? = before ++ .stepDone key code :: after)
    (running : ∀ msg ∈ before, msg.ending key = none)
    (sized : ∀ chunk ∈ before.filterMap (·.chunk key), chunk.2.length < 2 ^ 32) (range : -2 ^ 31 ≤ code ∧ code < 2 ^ 31) :
    (stream.finished = false →
      (∃ next, stream.apply key waiter .output = some next ∨ stream.apply key waiter .exit = some next) ∧
      ∀ event next, (∀ msg, event ≠ .handle msg) → stream.apply key waiter event = some next →
        next.finished = true ∨ next.unread waiter < stream.unread waiter) ∧
    (stream.finished = true → ∀ debugArgs cause (body : BodyArrival), body.bytes = stream.body.flatten →
      ¬ (Exec.main debugArgs cause body).Repeats [] (before.filterMap (·.chunk key)) code ∧
      ((Exec.main debugArgs cause body).Repeats (argsLine debugArgs) (before.filterMap (·.chunk key)) code ↔
        body.Timely ∧ 0 ≤ code ∧ code < 256)) := by
  subst own
  have valid := relays_run (relays_launch accepted found fresh) ran
  have ends : (StepMessage.stepDone (job.id, board.nextStepId) code).ending (job.id, board.nextStepId) = some code :=
    if_pos rfl
  rw [messages, foldl_hear running ends] at valid
  refine ⟨fun runs => ⟨?_, fun event next polled taken => ?_⟩, fun done debugArgs cause body same => ?_⟩
  · have ready : stream.apply (job.id, board.nextStepId) waiter .exit =
        some (stream.finish waiter ((stream.board.outputs.get? waiter).getD []) code) := by
      simp [LaunchStream.apply, runs, valid.exitCode_eq]
    exact ⟨_, .inr ready⟩
  · obtain ⟨_, _, done | ⟨chunk, rest, before, after⟩⟩ := valid.branch polled taken
    · exact .inl done
    · refine .inr ?_
      rw [LaunchStream.unread, LaunchStream.unread, before, after]
      exact Nat.lt_succ_self _
  · obtain ⟨code', ended, bytes⟩ := valid.ends done
    cases ended
    exact main_repeats_iff debugArgs cause sized range (same.trans bytes)

/-- What a launch and a step that writes to both streams make of the stream; it reads one chunk
before the end and the other one with it. -/
def bothStreams (code : Int) : List StreamEvent :=
  [.handle (.stepStarted (1, 1)), .handle (.stepOutput (1, 1) false [104, 105]), .output,
    .handle (.stepOutput (1, 1) true [33]), .handle (.stepDone (1, 1) code), .exit]

def launchedBoard : StepBoard :=
  (StepBoard.apiInternalLaunch .stored none 0 (StepBoard.runsOnNodes ["a"]) {} (StepBoard.sampleLaunch "a")).1

/-- A step that ends with code 7, and whose output takes a second. -/
theorem launch_stream_repeats_both_streams : ∃ stream : LaunchStream,
    runLabels (LaunchStream.apply (1, 1) 0) (bothStreams 7) { board := launchedBoard } = some stream ∧ stream.finished = true ∧
    (Exec.main "[]" "" ⟨stream.body.map fun bytes => (1000, bytes), 1000⟩).Repeats (argsLine "[]")
      [(false, [104, 105]), (true, [33])] 7 := by
  let launch := StepBoard.apiInternalLaunch .stored none 0 (StepBoard.runsOnNodes ["a"]) {} (StepBoard.sampleLaunch "a")
  have accepted : launch.2 = .ok { workerId := "a", waiter := 0 } := by decide +kernel
  obtain ⟨job, _, found, _, _, _, _, _⟩ := StepBoard.apiInternalLaunch_ok accepted
  have named : ((StepBoard.runsOnNodes ["a"]).jobs.get? (StepBoard.sampleLaunch "a").jobId).map JobInfo.id = some 1 := by
    decide +kernel
  rw [found, Option.map_some, Option.some.injEq] at named
  have ends : (runLabels (LaunchStream.apply (1, 1) 0) (bothStreams 7) { board := launch.1 }).map LaunchStream.finished =
      some true := by
    decide +kernel
  obtain ⟨stream, ran, done⟩ := Option.map_eq_some_iff.mp ends
  have fresh : Listed (∅ : HashMap StepKey (List Nat)) 0 none := StepBoard.listed_empty 0
  have own : ((1, 1) : StepKey) = (job.id, StepBoard.nextStepId {}) := by rw [named]
  have messages : (bothStreams 7).filterMap StreamEvent.msg? = [.stepStarted (1, 1), .stepOutput (1, 1) false [104, 105],
    .stepOutput (1, 1) true [33]] ++ .stepDone (1, 1) 7 :: [] := rfl
  have repeats := launch_stream_repeats_iff accepted found ⟨fresh, fresh, rfl⟩ own ran messages (by decide) (by decide)
    (by norm_num)
  let body : BodyArrival := ⟨stream.body.map fun bytes => (1000, bytes), 1000⟩
  have bytes : body.bytes = stream.body.flatten := by simp [body, BodyArrival.bytes, Function.comp_def]
  have timely : body.Timely := ⟨by simp [body, requestTimeout], Nat.lt_of_le_of_lt (Nat.le_refl 1000) (by decide)⟩
  exact ⟨stream, ran, done, ((repeats.2 done "[]" "" body bytes).2).mpr ⟨timely, by decide, by decide⟩⟩

/-- The same step ended by a signal: a line is on stderr that the step did not write, and the code -1
has become 255. -/
theorem launch_stream_not_faithful :
    (runLabels (LaunchStream.apply (1, 1) 0) (bothStreams (-1)) { board := launchedBoard }).map (fun stream =>
      (stream.finished, Exec.main "[]" "" ⟨stream.body.map fun bytes => (1000, bytes), 1000⟩)) =
        some (true, ⟨[104, 105], argsLine "[]" ++ [33], [1, 2, 3], 255⟩) ∧ argsLine "[]" ≠ [] := by
  decide +kernel

end Runs

end Veloce
