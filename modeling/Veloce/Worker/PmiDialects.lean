import Veloce.Collections.Pieces
import Veloce.Worker.PmiReads

/-! Requests and responses as the two dialects write them, and how the server reads them. -/

namespace Veloce

open Collections

inductive PmiDialect where
  | pmi1
  | pmi2
deriving DecidableEq

def pmiField (field : String × String) : String := field.1 ++ "=" ++ field.2

namespace PmiDialect

def delimiter : PmiDialect → Char
  | .pmi1 => ' '
  | .pmi2 => ';'

/-- What follows after the last delimiter. -/
def ending : PmiDialect → List (List Char)
  | .pmi1 => []
  | .pmi2 => [[]]

def write (dialect : PmiDialect) (fields : List (String × String)) : String :=
  String.ofList ([dialect.delimiter].intercalate (fields.map (fun field => (pmiField field).toList) ++ dialect.ending))

def put : PmiDialect → String
  | .pmi1 => "put"
  | .pmi2 => "kvs-put"

def get : PmiDialect → String
  | .pmi1 => "get"
  | .pmi2 => "kvs-get"

/-- What the response to a get has before the value. -/
def opening : PmiDialect → String
  | .pmi1 => "cmd=get_response rc=0 value="
  | .pmi2 => "cmd=kvs-get-response;rc=0;value="

def closing : PmiDialect → String
  | .pmi1 => "\n"
  | .pmi2 => ";\n"

def getResponse (dialect : PmiDialect) (value : String) : String := dialect.opening ++ value ++ dialect.closing

def Fits (dialect : PmiDialect) (text : String) : Prop := dialect.delimiter ∉ text.toList ∧ trimWhitespace text = text

instance (dialect : PmiDialect) (text : String) : Decidable (dialect.Fits text) := inferInstanceAs (Decidable (_ ∧ _))

end PmiDialect

/-- A request with its fields. A semicolon is in a key or in a value, if anywhere. -/
structure PmiRequest where
  dialect : PmiDialect
  fields : List (String × String)
  names : (fields.map Prod.fst).Nodup
  signs : ∀ field ∈ fields, '=' ∉ field.1.toList
  fits : ∀ field ∈ fields, dialect.Fits field.1 ∧ dialect.Fits field.2
  plain : ∀ field ∈ fields, ';' ∉ field.1.toList ∧ (field.1 ≠ "key" → field.1 ≠ "value" → ';' ∉ field.2.toList)

namespace PmiRequest

def text (request : PmiRequest) : String := request.dialect.write request.fields

structure Puts (request : PmiRequest) (key value : String) : Prop where
  cmd : ("cmd", request.dialect.put) ∈ request.fields
  key : ("key", key) ∈ request.fields
  value : ("value", value) ∈ request.fields

structure Gets (request : PmiRequest) (key : String) : Prop where
  cmd : ("cmd", request.dialect.get) ∈ request.fields
  key : ("key", key) ∈ request.fields

end PmiRequest

section Fields

variable {req : String} {parts : HashMap String String}

theorem splitOnce_field {name value : String} (sign : '=' ∉ name.toList) :
    splitOnce '=' (name ++ "=" ++ value) = some (name, value) := by
  have cut : name ++ "=" ++ value = String.ofList (name.toList ++ '=' :: value.toList) := by
    rw [← String.toList_inj]
    simp
  rw [cut, splitOnce_append sign, String.ofList_toList, String.ofList_toList]

theorem pmiField_add {field : String × String} (sign : '=' ∉ field.1.toList) (name : trimWhitespace field.1 = field.1)
    (value : trimWhitespace field.2 = field.2) : addPmiField parts (pmiField field) = parts.insert field.1 field.2 := by
  rw [addPmiField, pmiField, splitOnce_field sign]
  simp only [name, value]

theorem mem_of_mem_trimWhitespace {text : String} {char : Char} (member : char ∈ (trimWhitespace text).toList) :
    char ∈ text.toList := by
  rw [← String.ofList_toList (s := text), trimWhitespace_ofList, String.toList_ofList] at member
  exact (List.dropWhile_sublist _).mem ((List.rdropWhile_prefix ..).sublist.mem member)

theorem mem_of_splitOnce {sep char : Char} {text before after : String} (found : splitOnce sep text = some (before, after))
    (member : char ∈ after.toList) : char ∈ text.toList := by
  rcases splitOnce_cases sep text with ⟨_, uncut⟩ | ⟨front, back, whole, _, cut⟩
  · rw [uncut] at found
    cases found
  · rw [cut] at found
    cases found
    rw [String.toList_ofList] at member
    rw [whole]
    exact List.mem_append_right front (.tail sep member)

theorem semicolon_notMem_token {token : String} (member : token ∈ splitChar (pmiDelimiter req) req) :
    ';' ∉ token.toList := by
  obtain ⟨piece, cut, rfl⟩ := List.mem_map.mp member
  rw [String.toList_ofList]
  rw [pmiDelimiter] at cut
  split at cut
  · exact (mem_splitOn cut).1
  · rename_i absent
    exact fun inside => absent ((mem_splitOn cut).2 _ inside)

theorem semicolon_notMem_fields {tokens : List String} (plain : ∀ token ∈ tokens, ';' ∉ token.toList)
    (before : ∀ key value, parts.get? key = some value → ';' ∉ value.toList) {key value : String}
    (found : (tokens.foldl addPmiField parts).get? key = some value) : ';' ∉ value.toList := by
  induction tokens generalizing parts with
  | nil => exact before key value found
  | cons token tokens ih =>
    refine ih (fun later member => plain later (List.mem_cons_of_mem _ member)) (fun other stored there => ?_) found
    rw [addPmiField] at there
    split at there
    · rename_i name text cut
      rw [HashMap.get?_insert] at there
      split at there
      · cases there
        exact fun inside => plain token (List.mem_cons_self ..) (mem_of_splitOnce cut (mem_of_mem_trimWhitespace inside))
      · exact before other stored there
    · exact before other stored there

end Fields

section Responses

/-- A response that gives no value in PMI-1, and none with a semicolon. -/
def PlainResponse (response : String) : Prop :=
  ∀ dialect value, response = PmiDialect.getResponse dialect value → dialect = .pmi2 ∧ ';' ∉ value.toList

theorem PmiDialect.opening_starts (dialect : PmiDialect) (value : String) :
    dialect.opening.toList <+: (dialect.getResponse value).toList := by
  rw [getResponse, String.append_assoc, String.toList_append]
  exact List.prefix_append ..

/-- A response that does not start as one to a get. -/
theorem plainResponse_of_opening {response : String}
    (other : ∀ dialect : PmiDialect, ¬dialect.opening.toList <+: response.toList) : PlainResponse response :=
  fun dialect value same => absurd (same ▸ dialect.opening_starts value) (other dialect)

theorem PmiDialect.containsText_get (dialect : PmiDialect) : containsText dialect.get "get" = true := by
  cases dialect <;> decide +kernel

theorem pmiGetResponse_eq {cmd value : String} (gets : containsText cmd "get" = true) :
    pmiGetResponse cmd value = PmiDialect.getResponse .pmi2 value := if_pos gets

theorem plainResponse_get {value : String} (plain : ';' ∉ value.toList) :
    PlainResponse (PmiDialect.getResponse .pmi2 value) := by
  intro dialect other same
  cases dialect with
  | pmi1 =>
    have first := PmiDialect.opening_starts .pmi1 other
    rw [← same] at first
    have both := List.prefix_of_prefix_length_le first (PmiDialect.opening_starts .pmi2 value) (by decide)
    exact absurd both (by decide)
  | pmi2 =>
    have values : value = other := by
      have lists := congrArg String.toList same
      simp only [PmiDialect.getResponse, String.toList_append, List.append_assoc, List.append_cancel_left_eq,
        List.append_cancel_right_eq, String.toList_inj] at lists
      exact lists
    exact ⟨rfl, values ▸ plain⟩

/-- What the server does on any request gives no value but to a get, and stores none with a semicolon. -/
def PlainAction : PmiAction → Prop
  | .answer response | .barrier _ response => PlainResponse response
  | .put _ _ value response => PlainResponse response ∧ ';' ∉ value.toList
  | .get _ _ cmd => containsText cmd "get" = true

theorem plainAction_processPmiRequest (req : String) : PlainAction (processPmiRequest req) := by
  have constant {response : String} (other : ∀ dialect ∈ [PmiDialect.pmi1, .pmi2],
      ¬dialect.opening.toList <+: response.toList) : PlainResponse response :=
    plainResponse_of_opening fun dialect => by cases dialect <;> exact other _ (by decide)
  have value : ';' ∉ ((pmiFields req).getD "value" "").toList := by
    rw [HashMap.getD]
    cases found : (pmiFields req).get? "value" with
    | none => decide
    | some value =>
      refine semicolon_notMem_fields (fun _ => semicolon_notMem_token) (fun _ _ absent => ?_) found
      cases absent
  unfold processPmiRequest
  dsimp only
  split
  · dsimp only [PlainAction]
    exact constant (by decide +kernel)
  · split <;> dsimp only [PlainAction]
    all_goals first
      | exact constant (by decide +kernel)
      | exact ⟨constant (by decide +kernel), value⟩
      | decide +kernel

end Responses

namespace PmiRequest

variable {request : PmiRequest} {key value : String}

/-- A request of PMI-1 with a semicolon is taken for one of PMI-2. -/
def Read (request : PmiRequest) : Prop := request.dialect = .pmi1 → ';' ∉ request.text.toList

theorem delimiter_notMem (request : PmiRequest) {field : String × String} (member : field ∈ request.fields) :
    request.dialect.delimiter ∉ (pmiField field).toList := by
  have fits := request.fits field member
  have sign : request.dialect.delimiter ≠ '=' := by cases request.dialect <;> decide
  simp only [pmiField, String.toList_append, List.mem_append]
  rintro ((name | equals) | value)
  · exact fits.1.1 name
  · exact sign (List.mem_singleton.mp equals)
  · exact fits.2.1 value

theorem text_toList (request : PmiRequest) : request.text.toList = [request.dialect.delimiter].intercalate
    (request.fields.map (fun field => (pmiField field).toList) ++ request.dialect.ending) := String.toList_ofList

theorem splitOn_text (some : request.fields ≠ []) : request.text.toList.splitOn request.dialect.delimiter =
    request.fields.map (fun field => (pmiField field).toList) ++ request.dialect.ending := by
  rw [text_toList]
  refine List.splitOn_intercalate _ (fun piece member => ?_) (by simp [some])
  rcases List.mem_append.mp member with inside | last
  · obtain ⟨field, listed, rfl⟩ := List.mem_map.mp inside
    exact request.delimiter_notMem listed
  · cases dialect : request.dialect with
    | pmi1 =>
      rw [dialect] at last
      exact absurd last List.not_mem_nil
    | pmi2 =>
      rw [dialect] at last
      exact List.mem_singleton.mp last ▸ List.not_mem_nil

theorem piece_of_field {field : String × String} (member : field ∈ request.fields) :
    (pmiField field).toList ∈ request.text.toList.splitOn request.dialect.delimiter := by
  rw [splitOn_text (List.ne_nil_of_mem member)]
  exact List.mem_append_left _ (List.mem_map_of_mem member)

/-- A put without a semicolon in its key and its value is taken for what it is. -/
theorem read_of_plain (puts : request.Puts key value) (inKey : ';' ∉ key.toList) (inValue : ';' ∉ value.toList) :
    request.Read := by
  intro dialect inside
  rw [text_toList, dialect, PmiDialect.ending, List.append_nil] at inside
  rcases mem_intercalate inside with blank | ⟨piece, member, inside⟩
  · exact absurd blank (by decide)
  · obtain ⟨field, listed, rfl⟩ := List.mem_map.mp member
    obtain ⟨name, other⟩ := request.plain field listed
    have only {name text : String} (named : (name, text) ∈ request.fields) (same : field.1 = name) : field.2 = text :=
      congrArg Prod.snd (List.inj_on_of_nodup_map request.names listed named same)
    simp only [pmiField, String.toList_append, List.mem_append] at inside
    rcases inside with (inside | equals) | inside
    · exact name inside
    · exact absurd (List.mem_singleton.mp equals) (by decide)
    · by_cases here : field.1 = "key"
      · exact inKey (only puts.key here ▸ inside)
      · by_cases there : field.1 = "value"
        · exact inValue (only puts.value there ▸ inside)
        · exact other here there inside

theorem foldl_fields (request : PmiRequest) : (request.fields.map pmiField).foldl addPmiField ∅ =
    (∅ : HashMap String String).extend request.fields := by
  rw [List.foldl_map, HashMap.extend]
  refine List.foldl_ext _ _ _ fun parts field member => ?_
  have fits := request.fits field member
  exact pmiField_add (request.signs field member) fits.1.2 fits.2.2

theorem pmiDelimiter_text (read : request.Read) (some : request.fields ≠ []) :
    pmiDelimiter request.text = request.dialect.delimiter := by
  rw [pmiDelimiter]
  have cut := splitOn_text some
  cases dialect : request.dialect with
  | pmi1 => exact if_neg (read dialect)
  | pmi2 =>
    refine if_pos ?_
    by_contra absent
    rw [dialect] at cut
    rw [PmiDialect.delimiter, List.splitOn_eq_singleton absent] at cut
    have lengths := congrArg List.length cut
    simp [some, PmiDialect.ending] at lengths

theorem pmiFields_text (read : request.Read) (some : request.fields ≠ []) :
    pmiFields request.text = (∅ : HashMap String String).extend request.fields := by
  rw [pmiFields, splitChar, pmiDelimiter_text read some, splitOn_text some, List.map_append, List.map_map, List.foldl_append]
  simp only [Function.comp_def, String.ofList_toList]
  rw [foldl_fields]
  cases request.dialect <;> rfl

theorem get?_pmiFields (read : request.Read) {name value : String} (member : (name, value) ∈ request.fields) :
    (pmiFields request.text).get? name = some value := by
  rw [pmiFields_text read (List.ne_nil_of_mem member)]
  obtain ⟨last, listed, found⟩ := HashMap.exists_get?_extend ∅ member
  have same : ((name, value) : String × String) = (name, last) :=
    List.inj_on_of_nodup_map request.names member listed rfl
  cases same
  exact found

theorem processPmiRequest_put (read : request.Read) (puts : request.Puts key value) :
    ∃ rank response, processPmiRequest request.text = .put rank key value response := by
  have cmd := get?_pmiFields read puts.cmd
  have stored : (pmiFields request.text).getD "key" "unknown" = key := by
    rw [HashMap.getD, get?_pmiFields read puts.key, Option.getD_some]
  have given : (pmiFields request.text).getD "value" "" = value := by
    rw [HashMap.getD, get?_pmiFields read puts.value, Option.getD_some]
  rw [processPmiRequest, cmd, stored, given]
  cases request.dialect <;> exact ⟨_, _, rfl⟩

theorem processPmiRequest_get (read : request.Read) (gets : request.Gets key) :
    ∃ rank, processPmiRequest request.text = .get rank key request.dialect.get := by
  have cmd := get?_pmiFields read gets.cmd
  have stored : (pmiFields request.text).getD "key" "unknown" = key := by
    rw [HashMap.getD, get?_pmiFields read gets.key, Option.getD_some]
  rw [processPmiRequest, cmd, stored]
  cases request.dialect <;> exact ⟨_, rfl⟩

end PmiRequest

end Veloce
