import LatentMesh.Lib.Transition
import Mathlib.Data.List.DropRight

/-!
# Requests over stdio

`McpStdioClient` of `mcp.rs`. A request takes the next line that the server has written, and does
not compare its `id` with its own. A line that answers another request is returned for this one, and
every later request then takes the line of the one before. In a session each result answers its
request just when the lines come in the order of the requests (`request_matches_iff`).
-/

namespace LatentMesh.Bridge

open LatentMesh.Lib

/-! ## Messages -/

/-- `JSONRPC_VERSION`. -/
def jsonrpcVersion : String := "2.0"

/-- A request of the protocol. -/
structure Request (Value : Type) where
  jsonrpc : String
  id : Option Value
  method : String
  params : Value

/-- An error of the protocol. -/
structure RpcError (Value : Type) where
  code : Int64
  message : String
  data : Option Value

/-- A response of the protocol. -/
structure Response (Value : Type) where
  jsonrpc : String
  id : Value
  result : Option Value
  error : Option (RpcError Value)

/-- `serde_json` with its values, on these messages. Its errors are texts. -/
structure SerdeJson (Value : Type) where
  null : Value
  ofI64 : Int64 → Value
  toVec : Request Value → Except String (List UInt8)
  fromStr : String → Except String (Response Value)

/-- `ClientError`. The error of a reader or a writer is a text. -/
inductive ClientError (Value : Type) where
  | io (error : String)
  | json (error : String)
  | closed
  | rpc (error : RpcError Value)

/-- `char::is_whitespace`. -/
def isWhitespace (c : Char) : Bool :=
  (9 ≤ c.toNat && c.toNat ≤ 13) || (0x2000 ≤ c.toNat && c.toNat ≤ 0x200a) ||
    c.toNat ∈ [0x20, 0x85, 0xa0, 0x1680, 0x2028, 0x2029, 0x202f, 0x205f, 0x3000]

/-- `str::trim_end`. -/
def trimEnd (text : String) : String := String.ofList (text.toList.rdropWhile isWhitespace)

variable {Value : Type}

/-- `Request::new`. -/
def Request.new (serde : SerdeJson Value) (id : Int64) (method : String) (params : Value) :
    Request Value :=
  ⟨jsonrpcVersion, some (serde.ofI64 id), method, params⟩

/-! ## The client -/

/-- What becomes of a request that is written and flushed. -/
inductive Writing where
  | done
  | failed (accepted : Nat) (error : String)
  deriving DecidableEq

/-- The arguments of a request, and what the writer does with it. -/
structure Call (Value : Type) where
  method : String
  params : Value
  writing : Writing

/-- The reader is what the next calls of `read_line` return. No text is the end of the stream. -/
structure McpStdioClient where
  reader : List (Except String String)
  writer : List UInt8
  nextId : Int64

namespace McpStdioClient

/-- A client that will read the given lines. -/
def new (reader : List (Except String String)) : McpStdioClient := ⟨reader, [], 1⟩

/-- `alloc_id`. The addition wraps, as it does in a release build. -/
def allocId (self : McpStdioClient) : Int64 × McpStdioClient :=
  (self.nextId, { self with nextId := self.nextId + 1 })

/-- `write_all` and `flush`. -/
def writeAll (self : McpStdioClient) (line : List UInt8) :
    Writing → Except String Unit × McpStdioClient
  | .done => (.ok (), { self with writer := self.writer ++ line })
  | .failed accepted error =>
      (.error error, { self with writer := self.writer ++ line.take accepted })

/-- `McpStdioClient::read_line`. -/
def readLine (self : McpStdioClient) : Except String String × McpStdioClient :=
  match self.reader with
  | [] => (.ok "", self)
  | outcome :: reader => (outcome, { self with reader })

/-- What `request` makes of the line that it reads. -/
def receive (serde : SerdeJson Value) (read : Except String String) :
    Except (ClientError Value) Value :=
  match read with
  | .error error => .error (.io error)
  | .ok respLine =>
      if respLine = "" then .error .closed
      else match serde.fromStr (trimEnd respLine) with
        | .error error => .error (.json error)
        | .ok resp =>
            match resp.error with
            | some error => .error (.rpc error)
            | none => .ok (resp.result.getD serde.null)

/-- `McpStdioClient::request`. -/
def request (serde : SerdeJson Value) (self : McpStdioClient) (call : Call Value) :
    Except (ClientError Value) Value × McpStdioClient :=
  let (id, self) := self.allocId
  match serde.toVec (Request.new serde id call.method call.params) with
  | .error error => (.error (.json error), self)
  | .ok line =>
      match self.writeAll (line ++ [10]) call.writing with
      | (.error error, self) => (.error (.io error), self)
      | (.ok (), self) =>
          let (read, self) := self.readLine
          (receive serde read, self)

/-! ## Sessions -/

/-- The client after some calls. -/
def after (serde : SerdeJson Value) (self : McpStdioClient) (calls : List (Call Value)) :
    McpStdioClient :=
  calls.foldl (fun self call => (self.request serde call).2) self

/-- A line holds a response without an error. -/
def Succeeds (serde : SerdeJson Value) (read : Except String String) (resp : Response Value) :
    Prop :=
  ∃ text, read = .ok text ∧ text ≠ "" ∧ serde.fromStr (trimEnd text) = .ok resp ∧
    resp.error = none

/-- What a request returns is the result of the response with its `id`, which is the line that it
takes. -/
def Matched (serde : SerdeJson Value) (self : McpStdioClient) (call : Call Value) : Prop :=
  ∀ value, (self.request serde call).1 = .ok value →
    ∃ read resp, self.reader = read :: (self.request serde call).2.reader ∧
      Succeeds serde read resp ∧ resp.id = serde.ofI64 self.nextId ∧
      resp.result.getD serde.null = value

/-- The request is encoded and written. -/
def Sends (serde : SerdeJson Value) (id : Int64) (call : Call Value) : Prop :=
  (∃ line, serde.toVec (Request.new serde id call.method call.params) = .ok line) ∧
    call.writing = .done

instance (serde : SerdeJson Value) (id : Int64) (call : Call Value) :
    Decidable (Sends serde id call) :=
  match h : serde.toVec (Request.new serde id call.method call.params) with
  | .ok line => decidable_of_iff (call.writing = .done)
      ⟨fun hdone => ⟨⟨line, h⟩, hdone⟩, And.right⟩
  | .error _ => isFalse fun ⟨⟨_, hline⟩, _⟩ => by rw [h] at hline; cases hline

/-- The ids of the requests that are sent, in their order. -/
def sentIds (serde : SerdeJson Value) (id : Int64) : List (Call Value) → List Int64
  | [] => []
  | call :: calls =>
      if Sends serde id call then id :: sentIds serde (id + 1) calls
      else sentIds serde (id + 1) calls

/-- The lines come in the order of the requests: the line in the place of a sent request is no
successful response to another one. -/
def InOrder (serde : SerdeJson Value) (ids : List Int64) (reader : List (Except String String)) :
    Prop :=
  ∀ pair ∈ ids.zip reader, ∀ resp, Succeeds serde pair.2 resp → resp.id = serde.ofI64 pair.1

variable {serde : SerdeJson Value} {self : McpStdioClient} {call : Call Value}
  {calls : List (Call Value)}

/-! ## One request -/

/-- A line is read as one response at most. -/
theorem succeeds_unique {read : Except String String} {resp other : Response Value}
    (h : Succeeds serde read resp) (hother : Succeeds serde read other) : resp = other := by
  obtain ⟨text, rfl, -, hresp, -⟩ := h
  obtain ⟨text', htext, -, hresp', -⟩ := hother
  obtain rfl := Except.ok.inj htext
  exact Except.ok.inj (hresp.symm.trans hresp')

/-- A value is received when the line is a response that succeeds. -/
theorem receive_eq_ok_iff {read : Except String String} {value : Value} :
    receive serde read = .ok value ↔
      ∃ resp, Succeeds serde read resp ∧ resp.result.getD serde.null = value := by
  constructor
  · intro h
    unfold receive at h
    split at h
    · cases h
    · split at h
      · cases h
      · rename_i respLine hline
        split at h
        · cases h
        · rename_i resp hresp
          split at h
          · cases h
          · rename_i herror
            exact ⟨resp, ⟨respLine, rfl, hline, hresp, herror⟩, Except.ok.inj h⟩
  · rintro ⟨resp, ⟨text, rfl, htext, hresp, herror⟩, rfl⟩
    simp only [receive, if_neg htext, hresp, herror]

/-- What a request does after its `id` is taken. -/
theorem request_eq (self : McpStdioClient) (call : Call Value) :
    self.request serde call =
      match serde.toVec (Request.new serde self.nextId call.method call.params), call.writing with
      | .error error, _ => (.error (.json error), self.allocId.2)
      | .ok line, .failed accepted error =>
          (.error (.io error), (self.allocId.2.writeAll (line ++ [10]) (.failed accepted error)).2)
      | .ok line, .done =>
          (receive serde (self.reader.headD (.ok "")),
            (self.allocId.2.writeAll (line ++ [10]) .done).2.readLine.2) := by
  obtain ⟨reader, writer, nextId⟩ := self
  obtain ⟨method, params, writing⟩ := call
  unfold request allocId
  dsimp only
  cases serde.toVec (Request.new serde nextId method params) with
  | error error => rfl
  | ok line =>
      cases writing with
      | failed accepted error => rfl
      | done => cases reader <;> rfl

/-- Reading a line keeps the next id. -/
theorem read_line_keeps_next_id (self : McpStdioClient) :
    self.readLine.2.nextId = self.nextId := by
  unfold readLine
  split <;> rfl

/-- Reading a line takes it. -/
theorem read_line_reader (self : McpStdioClient) : self.readLine.2.reader = self.reader.tail := by
  unfold readLine
  split <;> rename_i h <;> rw [h] <;> rfl

/-- Every request takes an id. -/
theorem request_next_id (self : McpStdioClient) (call : Call Value) :
    (self.request serde call).2.nextId = self.nextId + 1 := by
  rw [request_eq]
  split
  · rfl
  · rfl
  · exact read_line_keeps_next_id _

/-- A request that is not sent takes no line and fails. -/
theorem request_of_not_sends (h : ¬ Sends serde self.nextId call) :
    (self.request serde call).2.reader = self.reader ∧
      ∀ value, (self.request serde call).1 ≠ .ok value := by
  rw [request_eq]
  split
  · exact ⟨rfl, fun value hvalue => by cases hvalue⟩
  · exact ⟨rfl, fun value hvalue => by cases hvalue⟩
  · rename_i line hline hwriting
    exact absurd ⟨⟨line, hline⟩, hwriting⟩ h

/-- A request that is sent takes one line, if there is one. -/
theorem request_of_sends (h : Sends serde self.nextId call) :
    (self.request serde call).2.reader = self.reader.tail ∧
      (self.request serde call).1 = receive serde (self.reader.headD (.ok "")) := by
  obtain ⟨⟨line, hline⟩, hwriting⟩ := h
  rw [request_eq, hline, hwriting]
  exact ⟨read_line_reader _, rfl⟩

/-- A request that is sent is matched when the line in its place is no success of another one. -/
theorem matched_of_sends_iff (h : Sends serde self.nextId call) :
    Matched serde self call ↔
      ∀ read ∈ self.reader.head?, ∀ resp, Succeeds serde read resp →
        resp.id = serde.ofI64 self.nextId := by
  obtain ⟨hreader, hresult⟩ := request_of_sends h
  rw [Matched, hreader, hresult]
  cases self.reader with
  | nil =>
      -- at the end of the input a request fails
      refine iff_of_true (fun value hvalue => ?_) (fun read hread => by cases hread)
      obtain ⟨resp, ⟨text, hread, htext, -⟩, -⟩ := receive_eq_ok_iff.mp hvalue
      exact absurd (Except.ok.inj hread).symm htext
  | cons first rest =>
      constructor
      · intro hmatched read hread resp hresp
        obtain rfl := Option.some.inj hread
        obtain ⟨read, resp', hread', hresp', hid, -⟩ :=
          hmatched _ (receive_eq_ok_iff.mpr ⟨resp, hresp, rfl⟩)
        obtain rfl := (List.cons.inj hread').1
        rw [succeeds_unique hresp hresp', hid]
      · intro hid value hvalue
        obtain ⟨resp, hresp, hvalue⟩ := receive_eq_ok_iff.mp hvalue
        exact ⟨first, resp, rfl, hresp, hid first rfl resp hresp, hvalue⟩

/-! ## Every session -/

/-- No request, no response that could be wrong. -/
theorem in_order_nil {ids : List Int64} : InOrder serde ids [] := by
  intro pair hpair
  rw [List.zip_nil_right] at hpair
  cases hpair

/-- The first response has the first id, and the others follow. -/
theorem in_order_cons {id : Int64} {ids : List Int64} {reader : List (Except String String)} :
    InOrder serde (id :: ids) reader ↔
      (∀ read ∈ reader.head?, ∀ resp, Succeeds serde read resp → resp.id = serde.ofI64 id) ∧
        InOrder serde ids reader.tail := by
  cases reader with
  | nil =>
      exact iff_of_true in_order_nil ⟨(fun read hread => nomatch hread), in_order_nil⟩
  | cons first rest =>
      rw [InOrder, List.zip_cons_cons, List.forall_mem_cons]
      refine and_congr_left fun _ => ⟨fun h read hread => ?_, fun h => h first rfl⟩
      obtain rfl := Option.some.inj hread
      exact h

/-- From any client on. -/
theorem requests_match_iff (calls : List (Call Value)) (self : McpStdioClient) :
    (∀ before call later, calls = before ++ call :: later →
        Matched serde (self.after serde before) call) ↔
      InOrder serde (sentIds serde self.nextId calls) self.reader := by
  induction calls generalizing self with
  | nil =>
      exact iff_of_true (forall_split_nil (P := fun before call =>
        Matched serde (self.after serde before) call)) fun pair hpair => by cases hpair
  | cons call calls ih =>
      have hrest := ih (self.request serde call).2
      rw [request_next_id] at hrest
      rw [forall_split_cons (P := fun before call => Matched serde (self.after serde before) call)]
      refine (and_congr_right fun _ => hrest).trans ?_
      rw [sentIds]
      by_cases hsends : Sends serde self.nextId call
      · rw [if_pos hsends, in_order_cons, (request_of_sends hsends).1]
        exact and_congr_left fun _ => matched_of_sends_iff hsends
      · rw [if_neg hsends, (request_of_not_sends hsends).1]
        exact and_iff_right fun value hvalue =>
          absurd hvalue ((request_of_not_sends hsends).2 value)

/-- In a session every result answers its request just when the lines come in the order of the
requests that are sent. -/
theorem request_matches_iff (serde : SerdeJson Value) (calls : List (Call Value))
    (reader : List (Except String String)) :
    (∀ before call later, calls = before ++ call :: later →
        Matched serde ((new reader).after serde before) call) ↔
      InOrder serde (sentIds serde 1 calls) reader :=
  requests_match_iff calls (new reader)

/-! ## Two responses in the other order -/

/-- Some values of JSON. -/
inductive SampleValue where
  | null
  | number (value : Int64)
  | string (value : String)
  deriving DecidableEq

/-- The text of a value. -/
def SampleValue.text : SampleValue → String
  | .null => "null"
  | .number value => toString value.toInt
  | .string value => "\"" ++ value ++ "\""

/-- A response line. -/
def responseTo (id result : String) : String :=
  "\x7b\"jsonrpc\":\"2.0\",\"id\":" ++ id ++ ",\"result\":\"" ++ result ++ "\"\x7d"

/-- `serde_json` on requests with a number as `id`, and on two responses. -/
def sampleSerde : SerdeJson SampleValue where
  null := .null
  ofI64 := .number
  toVec request := .ok ("\x7b\"jsonrpc\":\"" ++ request.jsonrpc ++ "\",\"id\":" ++
    (request.id.getD .null).text ++ ",\"method\":\"" ++ request.method ++ "\",\"params\":" ++
    request.params.text ++ "\x7d").toUTF8.toList
  fromStr text :=
    if text = responseTo "1" "first" then
      .ok ⟨jsonrpcVersion, .number 1, some (.string "first"), none⟩
    else if text = responseTo "2" "second" then
      .ok ⟨jsonrpcVersion, .number 2, some (.string "second"), none⟩
    else .error "expected value at line 1 column 1"

/-- `list_tools`, which is written. -/
def listTools : Call SampleValue := ⟨"tools/list", .null, .done⟩

/-- The server answers the second request before the first one, which then returns the answer to the
second. -/
theorem responses_swapped :
    ¬ ∀ before call later, [listTools, listTools] = before ++ call :: later →
      Matched sampleSerde ((new [.ok (responseTo "2" "second" ++ "\n"),
        .ok (responseTo "1" "first" ++ "\n")]).after sampleSerde before) call := by
  intro h
  obtain ⟨read, resp, hread, ⟨text, rfl, -, hresp, -⟩, hid, -⟩ :=
    h [] listTools [listTools] rfl (.string "second") (by rfl)
  cases (List.cons.inj hread).1
  have hsecond : sampleSerde.fromStr (trimEnd (responseTo "2" "second" ++ "\n")) =
      .ok ⟨jsonrpcVersion, .number 2, some (.string "second"), none⟩ := by rfl
  obtain rfl := Except.ok.inj (hsecond.symm.trans hresp)
  exact absurd hid (by decide)

end McpStdioClient

end LatentMesh.Bridge
