import Veloce.Worker.PmiAnswers
import Veloce.Worker.PmiRuns

/-! When the key-value exchange of a step is transparent: the requests in the reads of the sockets,
and the values in the responses. -/

namespace Veloce

open Collections

def PmiEvent.isSend : PmiEvent → Bool
  | .send _ _ => true
  | _ => false

/-- A connection reads from its socket, or anything else happens. -/
inductive PmiTurn where
  | read (rank : Nat) (chunk : List UInt8)
  | act (event : PmiEvent) (inner : event.isSend = false)

namespace PmiTurn

def events : PmiTurn → List PmiEvent
  | .read rank chunk => (pmiRequests chunk).map (PmiEvent.send rank)
  | .act event _ => [event]

def chunks (rank : Nat) : PmiTurn → List (List UInt8)
  | .read other chunk => if other = rank then [chunk] else []
  | .act _ _ => []

end PmiTurn

def readsOf (turns : List PmiTurn) (rank : Nat) : List (List UInt8) := turns.flatMap (PmiTurn.chunks rank)

theorem sends_events (turn : PmiTurn) (rank : Nat) :
    turn.events.flatMap (PmiEvent.sends rank) = (turn.chunks rank).flatMap pmiRequests := by
  cases turn with
  | read other chunk =>
    by_cases same : other = rank
    · simp [PmiTurn.events, PmiTurn.chunks, PmiEvent.sends, same, List.flatMap_map]
    · simp [PmiTurn.events, PmiTurn.chunks, PmiEvent.sends, same, List.flatMap_map]
  | act event inner =>
    cases event with
    | send _ _ => cases inner
    | _ => rfl

theorem sends_turns (turns : List PmiTurn) (rank : Nat) :
    (turns.flatMap PmiTurn.events).flatMap (PmiEvent.sends rank) = (readsOf turns rank).flatMap pmiRequests := by
  rw [readsOf, List.flatMap_assoc, List.flatMap_assoc]
  exact congrArg (turns.flatMap ·) (funext fun turn => sends_events turn rank)

def requestsOf (lines : Nat → List PmiLine) (rank : Nat) : List String := (lines rank).map PmiLine.request

/-- A rank gets a key that was put before a barrier, by the last put of the key, and is answered. -/
structure PmiExchange (step : PmiStep) (lines : Nat → List PmiLine) (final : PmiSystem) where
  put : PmiRequest
  get : PmiRequest
  key : String
  value : String
  puts : put.Puts key value
  gets : get.Gets key
  writer : Nat
  putAt : Nat
  reader : Nat
  getAt : Nat
  writes : writer < step.ntasks
  reads : reader < step.ntasks
  written : (requestsOf lines writer)[putAt]? = some put.text
  asked : (requestsOf lines reader)[getAt]? = some get.text
  follows : barriersBefore (requestsOf lines) writer putAt < barriersBefore (requestsOf lines) reader getAt
  last : ∀ rank < step.ntasks, ∀ index req other stored response, (requestsOf lines rank)[index]? = some req →
    processPmiRequest req = .put other key stored response → (rank = writer ∧ index = putAt) ∨
      Before (requestsOf lines) (rank, index) (writer, putAt) ∨ Before (requestsOf lines) (reader, getAt) (rank, index)
  answer : String × String
  answered : (final.conns reader).answered[getAt]? = some answer

namespace PmiSystem

variable {step : PmiStep} {final : PmiSystem} {turns : List PmiTurn} {lines : Nat → List PmiLine}

/-- A connection takes exactly the requests that its rank writes, in order, and answers them so;
in the end all of them, unless it waits at a barrier. -/
structure Served (step : PmiStep) (final : PmiSystem) (requests : List String) (rank : Nat) : Prop where
  taken : (final.conns rank).sent = requests
  answered : (final.conns rank).answered.map Prod.fst <+: requests
  complete : Settled step final → (∃ req response, (final.conns rank).waiting = some (.barrier req response)) ∨
    (final.conns rank).answered.map Prod.fst = requests

section Served

variable (run : runLabels (apply step) (turns.flatMap PmiTurn.events) {} = some final)
  (keeps : AllowedRun (Keeps step) (apply step) (turns.flatMap PmiTurn.events) {})

include run

theorem sent_reads (rank : Nat) : (final.conns rank).sent = (readsOf turns rank).flatMap pmiRequests := by
  rw [sent_run run, sends_turns]
  rfl

include keeps

theorem served {rank : Nat} (small : rank < step.ntasks) {requests : List String}
    (taken : (final.conns rank).sent = requests) : Served step final requests rank where
  taken := taken
  answered := by
    rw [← taken, PmiConn.sent, PmiConn.begun, List.append_assoc]
    exact List.prefix_append ..
  complete settled := by
    have quiet := settled.quiet
    cases waits : (final.conns rank).waiting with
    | none =>
      rw [PmiConn.sent, PmiConn.begun, waits, quiet.idle rank small waits] at taken
      exact .inr (by simpa using taken)
    | some wait =>
      cases wait with
      | barrier req response => exact .inl ⟨req, response, rfl⟩
      | get req requestId cmd => exact absurd waits (quiet.no_get (asked_run run keeps) small req requestId cmd)

end Served

section Exchanges

variable (exchange : PmiExchange step lines final)

/-- A get of PMI-2 and a put without a semicolon are what they look like. -/
def exchangeOf (pmi2 : exchange.get.dialect = .pmi2) (plain : ';' ∉ exchange.value.toList) :
    Exchange step (requestsOf lines) :=
  have inKey : ';' ∉ exchange.key.toList := by
    have fits := (exchange.get.fits _ exchange.gets.key).2.1
    rw [pmi2] at fits
    exact fits
  { writer := exchange.writer
    putAt := exchange.putAt
    reader := exchange.reader
    getAt := exchange.getAt
    key := exchange.key
    value := exchange.value
    cmd := exchange.get.dialect.get
    writes := exchange.writes
    reads := exchange.reads
    puts := by
      obtain ⟨rank, response, action⟩ := PmiRequest.processPmiRequest_put
        (PmiRequest.read_of_plain exchange.puts inKey plain) exchange.puts
      exact ⟨_, rank, response, exchange.written, action⟩
    gets := by
      have read : exchange.get.Read := fun pmi1 => by cases pmi1.symm.trans pmi2
      obtain ⟨rank, action⟩ := PmiRequest.processPmiRequest_get read exchange.gets
      exact ⟨_, rank, exchange.asked, action⟩
    follows := exchange.follows
    last := exchange.last }

theorem getResponse_of_answer (run : runLabels (apply step) (turns.flatMap PmiTurn.events) {} = some final)
    (inOrder : ∀ event ∈ turns.flatMap PmiTurn.events, InOrder event)
    (taken : ∀ rank < step.ntasks, (final.conns rank).sent = requestsOf lines rank)
    (pmi2 : exchange.get.dialect = .pmi2) (plain : ';' ∉ exchange.value.toList) :
    exchange.answer.2 = exchange.get.dialect.getResponse exchange.value := by
  have within : Within step final (requestsOf lines) := fun rank small => taken rank small ▸ List.prefix_refl _
  calc exchange.answer.2
    _ = pmiGetResponse exchange.get.dialect.get exchange.value :=
      exchange_run run inOrder within (exchangeOf exchange pmi2 plain) exchange.answered
    _ = PmiDialect.getResponse .pmi2 exchange.value := pmiGetResponse_eq (PmiDialect.containsText_get _)
    _ = exchange.get.dialect.getResponse exchange.value := by rw [pmi2]

end Exchanges

/-- What the ranks write is what the server takes and answers, and a get after a put and a barrier
is answered with the value in its own dialect, if and only if no read cuts a line, the gets are in
PMI-2, and the values have no semicolon. -/
theorem transparent_iff (run : runLabels (apply step) (turns.flatMap PmiTurn.events) {} = some final)
    (keeps : AllowedRun (Keeps step) (apply step) (turns.flatMap PmiTurn.events) {})
    (inOrder : ∀ event ∈ turns.flatMap PmiTurn.events, InOrder event)
    (written : ∀ rank < step.ntasks, (readsOf turns rank).flatten = (lines rank).flatMap PmiLine.bytes) :
    ((∀ rank < step.ntasks, Served step final (requestsOf lines rank) rank) ∧
      ∀ exchange : PmiExchange step lines final,
        exchange.answer.2 = exchange.get.dialect.getResponse exchange.value) ↔
    (∀ rank < step.ntasks, CleanReads [] (readsOf turns rank)) ∧
      ∀ exchange : PmiExchange step lines final, exchange.get.dialect = .pmi2 ∧ ';' ∉ exchange.value.toList := by
  have taken {rank : Nat} (small : rank < step.ntasks) :
      (final.conns rank).sent = requestsOf lines rank ↔ CleanReads [] (readsOf turns rank) := by
    rw [sent_reads run, requestsOf]
    exact PmiLine.reads_iff (written rank small)
  constructor
  · rintro ⟨served, right⟩
    refine ⟨fun rank small => (taken small).mp (served rank small).taken, fun exchange => ?_⟩
    have member := List.mem_of_getElem? exchange.answered
    exact (plain_run run).answered _ _ member _ _ (right exchange)
  · rintro ⟨clean, plain⟩
    have same (rank : Nat) (small : rank < step.ntasks) := (taken small).mpr (clean rank small)
    refine ⟨fun rank small => served run keeps small (same rank small), fun exchange => ?_⟩
    exact getResponse_of_answer exchange run inOrder same (plain exchange).1 (plain exchange).2

end PmiSystem

section Samples

def putLine : PmiLine := ⟨"cmd=put key=k value=v", by decide +kernel, by decide +kernel⟩
def fenceLine : PmiLine := ⟨"cmd=kvs-fence;rank=0;", by decide +kernel, by decide +kernel⟩
def otherFenceLine : PmiLine := ⟨"cmd=kvs-fence;rank=1;", by decide +kernel, by decide +kernel⟩
def getLine : PmiLine := ⟨"cmd=kvs-get;key=k;", by decide +kernel, by decide +kernel⟩
def getLine1 : PmiLine := ⟨"cmd=get key=k", by decide +kernel, by decide +kernel⟩

def putRequest : PmiRequest where
  dialect := .pmi1
  fields := [("cmd", "put"), ("key", "k"), ("value", "v")]
  names := by decide
  signs := by decide
  fits := by decide +kernel
  plain := by decide

def getRequest : PmiRequest where
  dialect := .pmi1
  fields := [("cmd", "get"), ("key", "k")]
  names := by decide
  signs := by decide
  fits := by decide +kernel
  plain := by decide

/-- Rank 0 puts a value, rank 1 gets it after the barrier. -/
def pairLines (get : PmiLine) : Nat → List PmiLine
  | 0 => [putLine, fenceLine]
  | 1 => [otherFenceLine, get]
  | _ => []

def pairTurns (get : PmiLine) : List PmiTurn :=
  [.read 0 (putLine.bytes ++ fenceLine.bytes), .read 1 otherFenceLine.bytes, .act (.serve 0) rfl, .act (.serve 0) rfl,
    .act (.serve 1) rfl, .act (.handle "a" 0) rfl, .act (.handle "a" 0) rfl, .act (.handle "b" 0) rfl, .act (.go 0) rfl,
    .act (.go 0) rfl, .act (.go 0) rfl, .act (.go 0) rfl, .act (.route "a" 0) rfl, .act (.route "b" 0) rfl,
    .act (.forward "a") rfl, .act (.forward "b") rfl, .act (.wake 0) rfl, .act (.wake 1) rfl, .read 1 get.bytes,
    .act (.serve 1) rfl, .act (.handle "b" 0) rfl, .act (.route "b" 0) rfl, .act (.forward "b") rfl, .act (.wake 1) rfl]

namespace PmiSystem

theorem transparent_iff_pair : ∃ final,
    runLabels (apply pairStep) ((pairTurns getLine).flatMap PmiTurn.events) {} = some final ∧
      (∀ rank < pairStep.ntasks, Served pairStep final (requestsOf (pairLines getLine) rank) rank) ∧
      ∀ exchange : PmiExchange pairStep (pairLines getLine) final,
        exchange.answer.2 = exchange.get.dialect.getResponse exchange.value := by
  have ran : (runLabels (apply pairStep) ((pairTurns getLine).flatMap PmiTurn.events) {}).isSome = true := by decide +kernel
  obtain ⟨final, run⟩ := Option.isSome_iff_exists.mp ran
  refine ⟨final, run, (transparent_iff run (by decide +kernel) (by decide +kernel) (by decide +kernel)).mpr
    ⟨by decide +kernel, fun exchange => ⟨?_, fun inside => ?_⟩⟩⟩
  · have none : ∀ rank < pairStep.ntasks, ∀ text ∈ requestsOf (pairLines getLine) rank,
        (pmiField ("cmd", PmiDialect.get .pmi1)).toList ∉ text.toList.splitOn ' ' := by decide +kernel
    cases dialect : exchange.get.dialect with
    | pmi2 => rfl
    | pmi1 =>
      have piece := PmiRequest.piece_of_field exchange.gets.cmd
      rw [dialect] at piece
      exact absurd piece (none _ exchange.reads _ (List.mem_of_getElem? exchange.asked))
  · have none : ∀ rank < pairStep.ntasks, ∀ text ∈ requestsOf (pairLines getLine) rank, ∀ dialect ∈ [PmiDialect.pmi1, .pmi2],
        ∀ piece ∈ text.toList.splitOn dialect.delimiter, "value=".toList <+: piece → ';' ∉ piece := by decide +kernel
    have piece := PmiRequest.piece_of_field exchange.puts.value
    refine none _ exchange.writes _ (List.mem_of_getElem? exchange.written) exchange.put.dialect ?_ _ piece ?_ ?_
    · cases exchange.put.dialect <;> decide
    · rw [pmiField, String.toList_append]
      exact List.prefix_append ..
    · rw [pmiField, String.toList_append]
      exact List.mem_append_right _ inside

/-- A request in two reads is two requests, and a get of PMI-1 is answered in PMI-2. -/
theorem cut_requests_and_foreign_answer :
    (∃ reads : List (List UInt8), reads.flatten = putLine.bytes ∧ reads.flatMap pmiRequests ≠ [putLine.request]) ∧
    ∃ final, runLabels (apply pairStep) ((pairTurns getLine1).flatMap PmiTurn.events) {} = some final ∧
      (∀ rank < pairStep.ntasks, CleanReads [] (readsOf (pairTurns getLine1) rank)) ∧
      ∃ exchange : PmiExchange pairStep (pairLines getLine1) final,
        exchange.answer.2 ≠ exchange.get.dialect.getResponse exchange.value := by
  refine ⟨⟨[putLine.bytes.take 6, putLine.bytes.drop 6], by decide +kernel, by decide +kernel⟩, ?_⟩
  have ran : (runLabels (apply pairStep) ((pairTurns getLine1).flatMap PmiTurn.events) {}).map
      (fun final => (final.conns 1).answered[1]?) =
        some (some ("cmd=get key=k", "cmd=kvs-get-response;rc=0;value=v;\n")) := by decide +kernel
  obtain ⟨final, run, answered⟩ := Option.map_eq_some_iff.mp ran
  refine ⟨final, run, by decide +kernel, ?_⟩
  have only : ∀ rank < pairStep.ntasks, ∀ index < 2, ∀ req ∈ (requestsOf (pairLines getLine1) rank)[index]?,
      (match processPmiRequest req with | .put .. => true | _ => false) = true → rank = 0 ∧ index = 0 := by decide +kernel
  have short : ∀ rank < pairStep.ntasks, (requestsOf (pairLines getLine1) rank).length = 2 := by decide +kernel
  exact
    ⟨{ put := putRequest
       get := getRequest
       key := "k"
       value := "v"
       puts := ⟨by decide, by decide, by decide⟩
       gets := ⟨by decide, by decide⟩
       writer := 0
       putAt := 0
       reader := 1
       getAt := 1
       writes := by decide
       reads := by decide
       written := by decide +kernel
       asked := by decide +kernel
       follows := by decide +kernel
       last := fun rank small index req other stored response found action => by
         have bound := (List.getElem?_eq_some_iff.mp found).1
         rw [short rank small] at bound
         exact .inl (only rank small index bound req found (by rw [action]))
       answer := ("cmd=get key=k", "cmd=kvs-get-response;rc=0;value=v;\n")
       answered := answered },
      (by decide +kernel : "cmd=kvs-get-response;rc=0;value=v;\n" ≠ PmiDialect.getResponse .pmi1 "v")⟩

end PmiSystem

end Samples

end Veloce
