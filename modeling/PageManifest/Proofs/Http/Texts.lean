import PageManifest.Http.Network
import PageManifest.Proofs.OrderedMap
import PageManifest.Proofs.Url.Characters

/-!
# What a client is told

What comes of an exchange is an answer from the server's script, the answer to a target that the
script does not know, or a failure that names an address. So what holds of every answer in the
script and of the other one holds of the answer that the client gets (`follow_tells`), and what is
said about a failure has no escape character whatever the server sends
(`Failure.IsPrintable.escapeFree`).
-/

namespace PageManifest

namespace Text

/-! ## ASCII texts as bytes -/

theorem encode_ascii {cs : List Char} (h : ∀ c ∈ cs, c.toNat < 0x80) :
    (Utf8.encode (String.ofList cs)).data.toList = cs.map fun c => UInt8.ofNat c.toNat := by
  have hbytes : (Utf8.encode (String.ofList cs)).data.toList = cs.flatMap String.utf8EncodeChar := by
    unfold Utf8.encode
    simp [String.toUTF8, String.ofList, List.utf8Encode]
  rw [hbytes]
  clear hbytes
  induction cs with
  | nil => rfl
  | cons c cs ih =>
    rw [List.forall_mem_cons] at h
    have hc : String.utf8EncodeChar c = [UInt8.ofNat c.toNat] := if_pos (Nat.le_of_lt_succ h.1)
    rw [List.flatMap_cons, hc, ih h.2]
    rfl

theorem decodeChars_ascii {cs : List Char} (h : ∀ c ∈ cs, c.toNat < 0x80) :
    Utf8.decodeChars (cs.map fun c => UInt8.ofNat c.toNat) = cs := by
  induction cs with
  | nil => rw [List.map_nil, Utf8.decodeChars]
  | cons c cs ih =>
    rw [List.forall_mem_cons] at h
    have hbyte : (UInt8.ofNat c.toNat).toNat = c.toNat := by
      rw [UInt8.toNat_ofNat']
      omega
    have hfollowing : Utf8.following? (UInt8.ofNat c.toNat) = some (c.toNat, []) := by
      rw [Utf8.following?, hbyte, if_pos h.1]
    rw [List.map_cons, Utf8.decodeChars, hfollowing]
    dsimp only
    rw [Utf8.continue?, ih h.2]
    dsimp only
    rw [Char.ofNat_toNat]

theorem marked?_of_ascii {cs : List Char} (h : ∀ c ∈ cs, c.toNat < 0x80) :
    Charset.marked? (cs.map fun c => UInt8.ofNat c.toNat) = none := by
  cases cs with
  | nil => rfl
  | cons c cs =>
    have hc := h c List.mem_cons_self
    have hfirst : ∀ byte : UInt8, 0x80 ≤ byte.toNat → UInt8.ofNat c.toNat ≠ byte := by
      rintro _ hbyte rfl
      rw [UInt8.toNat_ofNat'] at hbyte
      omega
    rw [List.map_cons]
    unfold Charset.marked?
    split
    · rename_i heq
      exact absurd (List.cons.inj heq).1 (hfirst _ (by decide))
    · rename_i heq
      exact absurd (List.cons.inj heq).1 (hfirst _ (by decide))
    · rename_i heq
      exact absurd (List.cons.inj heq).1 (hfirst _ (by decide))
    · rfl

/-- ASCII characters are read as they are, since no mark is in front of them. -/
theorem decode_encode_ascii {text : String} (h : ∀ c ∈ text.toList, c.toNat < 0x80) :
    Charset.utf8.decode (Utf8.encode text) = text := by
  have hbytes := encode_ascii h
  rw [String.ofList_toList] at hbytes
  have hmarked : Charset.marked? (text.toList.map fun c => UInt8.ofNat c.toNat) = none :=
    marked?_of_ascii h
  rw [Charset.decode]
  dsimp only
  rw [hbytes, hmarked, Option.getD_none]
  dsimp only
  rw [Charset.read, decodeChars_ascii h, String.ofList_toList]

end Text

namespace Http

open Text (EscapeFree)

/-! ## Failures -/

/-- The address that a failure names, if it names one, has printable ASCII characters. -/
def Failure.IsPrintable : Failure → Prop
  | .badAddress _ | .brokenBody => True
  | .badScheme address | .noConnection address _ | .closed address | .timedOut address
  | .tooManyRedirects address => address.IsPrintable

theorem escapeFree_forAddress {address : Url.Address} (h : address.IsPrintable) :
    EscapeFree (forAddress address) := by
  rw [forAddress, Text.escapeFree_append, Text.escapeFree_append]
  exact ⟨⟨.of_chars (by decide), Url.escapeFree_of_isPrintableText h.text⟩, .of_chars (by decide)⟩

theorem Failure.IsPrintable.escapeFree {failure : Failure} (h : failure.IsPrintable) :
    EscapeFree failure.message := by
  cases failure with
  | badAddress fault =>
    have hfault : EscapeFree fault.message := by
      unfold Url.Fault.message
      split <;> exact .of_chars (by decide)
    show EscapeFree ("builder error: " ++ fault.message)
    rw [Text.escapeFree_append]
    exact ⟨.of_chars (by decide), hfault⟩
  | badScheme address =>
    show EscapeFree ("builder error" ++ forAddress address ++ ": URL scheme is not allowed")
    simp only [Text.escapeFree_append]
    exact ⟨⟨.of_chars (by decide), escapeFree_forAddress h⟩, .of_chars (by decide)⟩
  | noConnection address obstacle =>
    have hobstacle : EscapeFree obstacle.message := by
      unfold Obstacle.message
      split <;> exact .of_chars (by decide)
    show EscapeFree ("error sending request" ++ forAddress address ++
      ": error trying to connect: tcp connect error: " ++ obstacle.message)
    simp only [Text.escapeFree_append]
    exact ⟨⟨⟨.of_chars (by decide), escapeFree_forAddress h⟩, .of_chars (by decide)⟩, hobstacle⟩
  | closed address =>
    show EscapeFree ("error sending request" ++ forAddress address ++
      ": connection closed before message completed")
    simp only [Text.escapeFree_append]
    exact ⟨⟨.of_chars (by decide), escapeFree_forAddress h⟩, .of_chars (by decide)⟩
  | timedOut address =>
    show EscapeFree ("error sending request" ++ forAddress address ++ ": operation timed out")
    simp only [Text.escapeFree_append]
    exact ⟨⟨.of_chars (by decide), escapeFree_forAddress h⟩, .of_chars (by decide)⟩
  | tooManyRedirects address =>
    show EscapeFree ("error following redirect" ++ forAddress address ++ ": too many redirects")
    simp only [Text.escapeFree_append]
    exact ⟨⟨.of_chars (by decide), escapeFree_forAddress h⟩, .of_chars (by decide)⟩
  | brokenBody =>
    show EscapeFree ("request or response body error: error reading a body from connection: " ++
      "end of file before message length reached")
    rw [Text.escapeFree_append]
    exact ⟨.of_chars (by decide), .of_chars (by decide)⟩

theorem escapeFree_phrase (status : Status) : EscapeFree status.phrase := by
  have hreason : EscapeFree (status.reason?.getD "<unknown status code>") := by
    unfold Status.reason?
    split <;> exact .of_chars (by decide)
  simp only [Status.phrase, Text.escapeFree_append]
  exact ⟨⟨Text.escapeFree_toString_nat status, .of_chars (by decide)⟩, hreason⟩

/-! ## Answers -/

/-- What is said to a request for a target that the script does not know. -/
def unknownText (request : Request) : String := "no route " ++ request.method.name ++ " " ++ request.target

/-- The answer to such a request. -/
def unknownAnswer (request : Request) : Answer :=
  .receive 404 [] (Text.Utf8.encode (unknownText request)) 0

theorem isPrintableText_unknownText {request : Request} (h : Url.IsPrintableText request.target) :
    Url.IsPrintableText (unknownText request) := by
  have hmethod : Url.IsPrintableText request.method.name := by
    unfold Method.name
    split <;> exact .of_chars (by decide)
  simp only [unknownText, Url.isPrintableText_append]
  exact ⟨⟨⟨.of_chars (by decide), hmethod⟩, .of_chars (by decide)⟩, h⟩

theorem decode_encode_printable {text : String} (h : Url.IsPrintableText text) :
    Text.Charset.utf8.decode (Text.Utf8.encode text) = text :=
  Text.decode_encode_ascii fun c hc => Nat.lt_succ_of_le (Nat.le_succ_of_le (h c hc).2)

theorem text_unknownAnswer {request : Request} (h : Url.IsPrintableText request.target) :
    (unknownAnswer request).text = .ok (unknownText request) :=
  congrArg Except.ok (decode_encode_printable (isPrintableText_unknownText h))

/-- Every answer in a script has a property. -/
def EveryAnswer (P : Answer → Prop) (script : Script) : Prop :=
  ∀ entry ∈ script, ∀ status headers body missing,
    Reply.answer status headers body missing ∈ entry.2 → P (.receive status headers body missing)

namespace Network

theorem replyAfter_cases (script : Script) (earlier : Nat) (request : Request) :
    replyAfter script earlier request = .unknownTarget request ∨
      ∃ entry ∈ script, replyAfter script earlier request ∈ entry.2 := by
  unfold replyAfter
  split
  · exact .inl rfl
  · rename_i replies hlookup
    have hentry := OrderedMap.mem_of_lookup_eq_some hlookup
    cases hfound : replies[earlier]? with
    | some reply => exact .inr ⟨_, hentry, List.mem_of_getElem? hfound⟩
    | none =>
      cases hlast : replies.getLast? with
      | some reply => exact .inr ⟨_, hentry, List.mem_of_getLast? hlast⟩
      | none => exact .inl rfl

/-- What may come of an exchange on a network: an answer with a property, or a failure that names
a printable address; the script stays as it is. -/
structure Tells (P : Answer → Prop) (network : Network)
    (outcome : Except Failure Answer × Network) : Prop where
  answer : ∀ answer, outcome.1 = .ok answer → P answer
  failure : ∀ failure, outcome.1 = .error failure → failure.IsPrintable
  script : outcome.2.script = network.script

variable {P : Answer → Prop} {network : Network} {address : Url.Address} {request : Request}

theorem Tells.error {failure : Failure} (h : failure.IsPrintable) :
    Tells P network (.error failure, network) :=
  ⟨by simp, by rintro _ ⟨⟩; exact h, rfl⟩

theorem send_tells (hscript : EveryAnswer P network.script)
    (hunknown : ∀ request, Url.IsPrintableText request.target → P (unknownAnswer request))
    (haddress : address.IsPrintable) (htarget : Url.IsPrintableText request.target) :
    Tells P network (network.send address request) := by
  unfold send
  split
  · exact .error haddress
  · split
    · exact ⟨by simp, by rintro _ ⟨⟩; exact haddress, rfl⟩
    · rename_i status headers body missing hreply
      refine ⟨?_, by simp, rfl⟩
      rintro _ ⟨⟩
      obtain hcase | ⟨entry, hentry, hcase⟩ := replyAfter_cases network.script
        (network.requests.countP (·.target == request.target)) request
      · rw [← reply, hreply] at hcase
        cases hcase
        exact hunknown request htarget
      · rw [← reply, hreply] at hcase
        exact hscript entry hentry status headers body missing hcase

theorem Tells.trans {later : Network} {outcome : Except Failure Answer × Network}
    (h : Tells P later outcome) (hscript : later.script = network.script) :
    Tells P network outcome :=
  ⟨h.answer, h.failure, h.script.trans hscript⟩

theorem isPrintable_next? {answer : Answer} {found : Url.Address} {following : Request}
    (haddress : address.IsPrintable) (h : next? address request answer = some (found, following)) :
    found.IsPrintable ∧ Url.IsPrintableText following.target := by
  obtain ⟨⟨leading, location⟩, -, h⟩ := Option.bind_eq_some_iff.mp h
  obtain ⟨read, hread, h⟩ := Option.bind_eq_some_iff.mp h
  have hprintable : read.IsPrintable := by
    cases hresult : Url.readFrom (some address) location with
    | error fault =>
      rw [hresult] at hread
      cases hread
    | ok other =>
      rw [hresult] at hread
      cases hread
      exact Url.isPrintable_readFrom (by rintro _ ⟨⟩; exact haddress) hresult
  split at h
  · cases h
    exact ⟨hprintable, hprintable.target⟩
  · cases h

/-- The number of requests that are left goes down, and each address is read from the one before. -/
theorem follow_tells
    (hunknown : ∀ request, Url.IsPrintableText request.target → P (unknownAnswer request))
    (left : Nat) {network : Network} (hscript : EveryAnswer P network.script)
    {address : Url.Address} (haddress : address.IsPrintable) {request : Request}
    (htarget : Url.IsPrintableText request.target) :
    Tells P network (network.follow left address request) := by
  induction left generalizing network address request with
  | zero => exact .error haddress
  | succ left ih =>
    have hsent := send_tells hscript hunknown haddress htarget
    rw [follow]
    split
    · rename_i failure later hresult
      rw [hresult] at hsent
      exact hsent
    · rename_i answer later hresult
      rw [hresult] at hsent
      split
      · exact hsent
      · rename_i found following hnext
        split
        · exact ⟨by simp, by rintro _ ⟨⟩; exact haddress, hsent.script⟩
        · obtain ⟨hfound, hfollowing⟩ := isPrintable_next? haddress hnext
          have hlater : later.script = network.script := hsent.script
          exact (ih (hlater ▸ hscript) hfound hfollowing).trans hlater

theorem isPrintable_read {text : String} {address : Url.Address}
    (h : Url.read text = .ok address) : address.IsPrintable :=
  Url.isPrintable_readFrom (by simp) h

theorem isPrintable_addressOf {text : String} {address : Url.Address}
    (h : addressOf text = .ok address) : address.IsPrintable := by
  unfold addressOf at h
  split at h
  · cases h
  · rename_i found hfound
    split at h
    · cases h
    · dsimp only at h
      split at h
      · cases h
        exact (isPrintable_read hfound).withoutCredentials
      · cases h

theorem isPrintable_of_addressOf_eq_error {text : String} {failure : Failure}
    (h : addressOf text = .error failure) : failure.IsPrintable := by
  unfold addressOf at h
  split at h
  · cases h
    exact trivial
  · rename_i found hfound
    split at h
    · cases h
      exact isPrintable_read hfound
    · dsimp only at h
      split at h
      · cases h
      · cases h
        exact (isPrintable_read hfound).withoutCredentials

theorem exchange_tells (hscript : EveryAnswer P network.script)
    (hunknown : ∀ request, Url.IsPrintableText request.target → P (unknownAnswer request))
    (method : Method) (text : String) (body : Option String) (timeout : Option UInt64) :
    Tells P network (network.exchange method text body timeout) := by
  unfold exchange
  split
  · rename_i failure h
    exact .error (isPrintable_of_addressOf_eq_error h)
  · rename_i address h
    have haddress := isPrintable_addressOf h
    split
    · exact .error haddress
    · exact follow_tells hunknown _ hscript haddress haddress.target

end Network

end Http

end PageManifest
