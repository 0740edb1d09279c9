import PageManifest.Proofs.Json.Lengths
import PageManifest.Proofs.Text.Escapes
import PageManifest.Url.Reader

/-!
# Characters of addresses

Whatever text an address is read from, all its parts are printable ASCII characters
(`isPrintable_readFrom`): names of hosts must be, and everything else is encoded. So is its text,
and what a request asks its host for.
-/

namespace PageManifest.Url

open Text (IsPrintableAscii)

/-- A text of printable ASCII characters. -/
def IsPrintableText (text : String) : Prop := ∀ c ∈ text.toList, IsPrintableAscii c

theorem escapeFree_of_isPrintableText {text : String} (h : IsPrintableText text) :
    Text.EscapeFree text := Text.notMem_of_isPrintableAscii h

@[simp] theorem isPrintableText_append {a b : String} :
    IsPrintableText (a ++ b) ↔ IsPrintableText a ∧ IsPrintableText b := by
  simp only [IsPrintableText, String.toList_append, List.forall_mem_append]

theorem isPrintableText_ofList {cs : List Char} :
    IsPrintableText (String.ofList cs) ↔ ∀ c ∈ cs, IsPrintableAscii c := by
  rw [IsPrintableText, String.toList_ofList]

/-- A literal is the text of its characters, which are checked one by one. -/
theorem IsPrintableText.of_chars {cs : List Char}
    (h : (cs.all fun c => decide (IsPrintableAscii c)) = true) :
    IsPrintableText (String.ofList cs) := by
  rw [isPrintableText_ofList]
  intro c hc
  exact of_decide_eq_true (List.all_eq_true.mp h c hc)

theorem isPrintableText_toString_nat (n : Nat) : IsPrintableText (toString n) := by
  rw [Nat.toString_eq_ofList_toDigits, isPrintableText_ofList]
  exact Text.isPrintableAscii_of_mem_toDigits (by decide)

theorem isPrintableText_intercalate {separator : String} {texts : List String}
    (hseparator : IsPrintableText separator) (h : ∀ text ∈ texts, IsPrintableText text) :
    IsPrintableText (separator.intercalate texts) := by
  intro c hc
  rw [String.toList_intercalate] at hc
  obtain hc | ⟨part, hpart, hc⟩ := mem_of_mem_intercalate hc
  · exact hseparator c hc
  · obtain ⟨text, htext, rfl⟩ := List.mem_map.mp hpart
    exact h text htext c hc

/-! ## Encoded characters -/

theorem isPrintableAscii_digit {n : Nat} (h : n < 16) : IsPrintableAscii (Percent.digit n) := by
  have hall : ∀ m < 16, IsPrintableAscii (Percent.digit m) := by decide
  exact hall n h

/-- What encodes the controls among the characters leaves printable ASCII characters only. -/
theorem isPrintableText_encode {mustEncode : Char → Bool}
    (h : ∀ c, Percent.isControl c = true → mustEncode c = true) (cs : List Char) :
    IsPrintableText (String.ofList (Percent.encode mustEncode cs)) := by
  rw [isPrintableText_ofList]
  intro c hc
  obtain ⟨d, -, hc⟩ := List.mem_flatMap.mp hc
  split at hc
  · obtain ⟨byte, -, hc⟩ := List.mem_flatMap.mp hc
    have hbyte := byte.toNat_lt
    simp only [Percent.encodeByte, List.mem_cons, List.not_mem_nil, or_false] at hc
    obtain rfl | rfl | rfl := hc
    · decide
    · exact isPrintableAscii_digit (by omega)
    · exact isPrintableAscii_digit (by omega)
  · rename_i hkept
    cases List.mem_singleton.mp hc
    have hcontrol : Percent.isControl c = false := by
      rw [← Bool.not_eq_true]
      exact fun hcontrol => hkept (by simp [h c hcontrol])
    simp only [Percent.isControl, Bool.or_eq_false_iff, decide_eq_false_iff_not,
      beq_eq_false_iff_ne] at hcontrol
    simp only [Bool.or_eq_true, decide_eq_true_eq, not_or] at hkept
    exact ⟨by omega, by omega⟩

theorem inFragment_of_isControl (c : Char) (h : Percent.isControl c = true) :
    Percent.inFragment c = true := by
  rw [Percent.inFragment, h, Bool.true_or]

theorem inPath_of_isControl (c : Char) (h : Percent.isControl c = true) :
    Percent.inPath c = true := by
  rw [Percent.inPath, inFragment_of_isControl c h, Bool.true_or]

theorem inCredentials_of_isControl (c : Char) (h : Percent.isControl c = true) :
    Percent.inCredentials c = true := by
  rw [Percent.inCredentials, inPath_of_isControl c h, Bool.true_or]

theorem inQuery_of_isControl (common : Bool) (c : Char) (h : Percent.isControl c = true) :
    Percent.inQuery common c = true := by
  rw [Percent.inQuery, h, Bool.true_or, Bool.true_or]

/-! ## Hosts -/

theorem isPrintableText_ipv4Text (n : Nat) : IsPrintableText (Host.ipv4Text n) := by
  refine isPrintableText_intercalate (.of_chars (by decide)) fun text htext => ?_
  obtain ⟨part, -, rfl⟩ := List.mem_map.mp htext
  exact isPrintableText_toString_nat part

theorem isPrintableText_ipv6Text (groups : List Nat) : IsPrintableText (Host.ipv6Text groups) := by
  have hside : ∀ side : List Nat, IsPrintableText (":".intercalate (side.map Host.groupText)) := by
    intro side
    refine isPrintableText_intercalate (.of_chars (by decide)) fun text htext => ?_
    obtain ⟨group, -, rfl⟩ := List.mem_map.mp htext
    rw [Host.groupText, isPrintableText_ofList]
    exact Text.isPrintableAscii_of_mem_toDigits (by decide)
  have hopen : IsPrintableText "[" := .of_chars (by decide)
  have hclose : IsPrintableText "]" := .of_chars (by decide)
  have homitted : IsPrintableText "::" := .of_chars (by decide)
  unfold Host.ipv6Text
  dsimp only
  split
  · simp only [isPrintableText_append]
    exact ⟨⟨hopen, hside _⟩, hclose⟩
  · simp only [isPrintableText_append]
    exact ⟨⟨⟨⟨hopen, hside _⟩, homitted⟩, hside _⟩, hclose⟩

theorem isPrintableText_bracketed {cs : List Char} {host : Host}
    (h : Host.bracketed cs = .ok host) : IsPrintableText host.text := by
  unfold Host.bracketed at h
  split at h
  · split at h
    · cases h
      exact isPrintableText_ipv6Text _
    · cases h
  · cases h

theorem isPrintableText_ofCommon {cs : List Char} {host : Host} (h : Host.ofCommon cs = .ok host) :
    IsPrintableText host.text := by
  unfold Host.ofCommon at h
  dsimp only at h
  split at h
  · exact isPrintableText_bracketed h
  generalize ((Text.Utf8.decodeChars (Percent.decode cs)).map fun c => (Host.narrow c).toLower)
    = name at h
  split at h
  · cases h
  split at h
  · cases h
  rename_i hname
  split at h
  · split at h
    · cases h
      exact isPrintableText_ipv4Text _
    · cases h
  · cases h
    show IsPrintableText (String.ofList name)
    rw [isPrintableText_ofList]
    intro c hc
    have hc : ¬ (Host.isForbiddenInName c || 0x7F < c.toNat) = true := fun hbad =>
      hname (List.any_eq_true.mpr ⟨c, hc, hbad⟩)
    simp only [Host.isForbiddenInName, Percent.isControl, Bool.or_eq_true, decide_eq_true_eq,
      beq_iff_eq, not_or] at hc
    exact ⟨by omega, by omega⟩

theorem isPrintableText_ofOther {cs : List Char} {host : Host} (h : Host.ofOther cs = .ok host) :
    IsPrintableText host.text := by
  unfold Host.ofOther at h
  split at h
  · exact isPrintableText_bracketed h
  split at h
  · cases h
  · cases h
    exact isPrintableText_encode (fun _ => id) cs

/-! ## Parts of addresses -/

/-- An authority of printable ASCII characters. -/
structure Authority.IsPrintable (authority : Authority) : Prop where
  user : IsPrintableText authority.user
  password : IsPrintableText authority.password
  host : IsPrintableText authority.host.text

/-- A route of printable ASCII characters. -/
def Route.IsPrintable : Route → Prop
  | .segments parts => ∀ part ∈ parts, IsPrintableText part
  | .opaqueText text => IsPrintableText text

/-- An address of printable ASCII characters. -/
structure Address.IsPrintable (address : Address) : Prop where
  scheme : IsPrintableText address.scheme
  authority : ∀ authority ∈ address.authority, authority.IsPrintable
  route : address.route.IsPrintable
  query : ∀ query ∈ address.query, IsPrintableText query
  fragment : ∀ fragment ∈ address.fragment, IsPrintableText fragment

theorem Authority.IsPrintable.text {authority : Authority} (h : authority.IsPrintable) :
    IsPrintableText authority.text := by
  have hcredentials : IsPrintableText (authority.user ++
      if authority.password.isEmpty then "" else ":" ++ authority.password) := by
    rw [isPrintableText_append]
    refine ⟨h.user, ?_⟩
    split
    · exact .of_chars (by decide)
    · rw [isPrintableText_append]
      exact ⟨.of_chars (by decide), h.password⟩
  unfold Authority.text
  dsimp only
  generalize (authority.user ++ if authority.password.isEmpty then "" else ":" ++ authority.password)
    = credentials at hcredentials
  rw [isPrintableText_append, isPrintableText_append]
  refine ⟨⟨?_, h.host⟩, ?_⟩
  · split
    · exact .of_chars (by decide)
    · rw [isPrintableText_append]
      exact ⟨hcredentials, .of_chars (by decide)⟩
  · split
    · rw [isPrintableText_append]
      exact ⟨.of_chars (by decide), isPrintableText_toString_nat _⟩
    · exact .of_chars (by decide)

theorem Authority.IsPrintable.anonymous {authority : Authority} (h : authority.IsPrintable) :
    authority.anonymous.IsPrintable := by
  have hempty : IsPrintableText "" := .of_chars (by decide)
  unfold Authority.anonymous
  split
  · exact ⟨hempty, hempty, h.host⟩
  · exact h

theorem Route.IsPrintable.text {route : Route} (h : route.IsPrintable) :
    IsPrintableText route.text := by
  cases route with
  | segments parts =>
    rw [Route.text]
    have hslash : IsPrintableText "/" := .of_chars (by decide)
    induction parts with
    | nil => exact .of_chars (by decide)
    | cons part parts ih =>
      obtain ⟨hpart, hparts⟩ := List.forall_mem_cons.mp h
      rw [List.map_cons, String.join_cons]
      simp only [isPrintableText_append]
      exact ⟨⟨hslash, hpart⟩, ih hparts⟩
  | opaqueText text => exact h

theorem isPrintableText_marked {mark : String} (hmark : IsPrintableText mark)
    {text : Option String} (h : ∀ t ∈ text, IsPrintableText t) :
    IsPrintableText (Address.marked mark text) := by
  cases text with
  | none =>
    exact .of_chars (by decide)
  | some text =>
    rw [Address.marked, isPrintableText_append]
    exact ⟨hmark, h text rfl⟩

namespace Address.IsPrintable

variable {address : Address}

theorem text (h : address.IsPrintable) : IsPrintableText address.text := by
  have hcolon : IsPrintableText ":" := .of_chars (by decide)
  unfold Address.text
  dsimp only
  simp only [isPrintableText_append]
  refine ⟨⟨⟨⟨⟨h.scheme, hcolon⟩, ?_⟩, h.route.text⟩,
    isPrintableText_marked (.of_chars (by decide)) h.query⟩,
    isPrintableText_marked (.of_chars (by decide)) h.fragment⟩
  split
  · rename_i authority hauthority
    rw [isPrintableText_append]
    exact ⟨.of_chars (by decide), (h.authority authority hauthority).text⟩
  · unfold Route.guard
    split <;> exact .of_chars (by decide)

theorem target (h : address.IsPrintable) : IsPrintableText address.target := by
  unfold Address.target
  dsimp only
  rw [isPrintableText_append]
  refine ⟨?_, isPrintableText_marked (.of_chars (by decide)) h.query⟩
  split
  · exact .of_chars (by decide)
  · exact h.route.text

theorem withoutCredentials (h : address.IsPrintable) : address.withoutCredentials.IsPrintable := by
  refine ⟨h.scheme, ?_, h.route, h.query, h.fragment⟩
  intro authority hauthority
  obtain ⟨named, hnamed, rfl⟩ := Option.map_eq_some_iff.mp hauthority
  exact (h.authority named hnamed).anonymous

end Address.IsPrintable

/-! ## Reading -/

theorem isPrintable_walk {place : List String} (hplace : ∀ part ∈ place, IsPrintableText part)
    (segments : List (List Char)) : ∀ part ∈ walk place segments, IsPrintableText part := by
  have hempty : IsPrintableText "" := .of_chars (by decide)
  have hended : ∀ {rest : List (List Char)} {place : List String},
      (∀ part ∈ place, IsPrintableText part) →
        ∀ part ∈ (if rest.isEmpty then "" :: place else place), IsPrintableText part := by
    intro rest place hplace
    split
    · exact List.forall_mem_cons.mpr ⟨hempty, hplace⟩
    · exact hplace
  have habove : ∀ {place : List String}, (∀ part ∈ place, IsPrintableText part) →
      ∀ part ∈ above place, IsPrintableText part := by
    intro place hplace
    unfold above
    split
    · exact hplace
    · split
      · exact hplace
      · exact (List.forall_mem_cons.mp hplace).2
  induction segments generalizing place with
  | nil => exact hplace
  | cons segment rest ih =>
    rw [walk]
    dsimp only
    split
    · exact ih (hended (habove hplace))
    · split
      · exact ih (hended hplace)
      · exact ih (List.forall_mem_cons.mpr
          ⟨isPrintableText_encode inPath_of_isControl segment, hplace⟩)

theorem isPrintable_routeFrom {place : List String} (hplace : ∀ part ∈ place, IsPrintableText part)
    (common : Bool) (cs : List Char) : (routeFrom place common cs).IsPrintable := by
  intro part hpart
  exact isPrintable_walk (fun p hp => hplace p (List.mem_reverse.mp hp)) _ part
    (List.mem_reverse.mp hpart)

theorem isPrintable_routeFromRoot (common : Bool) (cs : List Char) :
    (routeFromRoot common cs).IsPrintable := by
  unfold routeFromRoot
  split
  · intro part hpart
    split at hpart
    · rw [List.mem_singleton.mp hpart]
      exact .of_chars (by decide)
    · cases hpart
  · exact isPrintable_routeFrom (by simp) common _

theorem isPrintable_filePath (cs : List Char) : (filePath cs).IsPrintable := by
  have hroot := isPrintable_routeFromRoot true cs
  unfold filePath
  split
  · rename_i drive parts hroute
    rw [hroute] at hroot
    obtain ⟨hdrive, hparts⟩ := List.forall_mem_cons.mp hroot
    split
    · refine List.forall_mem_cons.mpr ⟨?_, hparts⟩
      rw [isPrintableText_ofList, List.forall_mem_append, List.forall_mem_singleton]
      exact ⟨fun c hc => hdrive c (List.mem_of_mem_take hc), by decide⟩
    · dsimp only
      intro part hpart
      split at hpart
      · rw [List.mem_singleton.mp hpart]
        exact .of_chars (by decide)
      · exact hroot part ((List.dropWhile_sublist _).mem hpart)
  · rename_i hroute
    exact hroot

theorem isPrintable_credentials (cs : List Char) :
    IsPrintableText (credentials cs).1 ∧ IsPrintableText (credentials cs).2 :=
  ⟨isPrintableText_encode inCredentials_of_isControl _,
    isPrintableText_encode inCredentials_of_isControl _⟩

theorem isPrintable_authority {scheme : String} {cs : List Char} {found : Authority}
    (h : authority scheme cs = .ok found) : found.IsPrintable := by
  have hempty : IsPrintableText "" := .of_chars (by decide)
  unfold authority at h
  split at h
  rename_i user password place hparts
  have hcredentials : IsPrintableText user ∧ IsPrintableText password := by
    split at hparts
    · cases hparts
      exact isPrintable_credentials _
    · cases hparts
      exact ⟨hempty, hempty⟩
  split at h
  · cases h
  dsimp only at h
  split at h
  · cases h
  split at h
  · obtain ⟨host, hhost, h⟩ := bind_eq_ok.mp h
    obtain ⟨port, -, h⟩ := bind_eq_ok.mp h
    cases h
    exact ⟨hcredentials.1, hcredentials.2, isPrintableText_ofCommon hhost⟩
  · obtain ⟨host, hhost, h⟩ := bind_eq_ok.mp h
    obtain ⟨port, -, h⟩ := bind_eq_ok.mp h
    cases h
    exact ⟨hcredentials.1, hcredentials.2, isPrintableText_ofOther hhost⟩

theorem isPrintable_assemble {scheme : String} {authority : Option Authority} {route : Route}
    (hscheme : IsPrintableText scheme) (hauthority : ∀ a ∈ authority, a.IsPrintable)
    (hroute : route.IsPrintable) (pieces : Pieces) :
    (assemble scheme authority route pieces).IsPrintable := by
  refine ⟨hscheme, hauthority, hroute, ?_, ?_⟩
  · intro query hquery
    obtain ⟨cs, -, rfl⟩ := Option.map_eq_some_iff.mp hquery
    exact isPrintableText_encode (inQuery_of_isControl _) cs
  · intro fragment hfragment
    obtain ⟨cs, -, rfl⟩ := Option.map_eq_some_iff.mp hfragment
    exact isPrintableText_encode inFragment_of_isControl cs

theorem isPrintable_withAuthority {scheme : String} (hscheme : IsPrintableText scheme)
    {cs : List Char} {pieces : Pieces} {address : Address}
    (h : withAuthority scheme cs pieces = .ok address) : address.IsPrintable := by
  obtain ⟨found, hfound, h⟩ := bind_eq_ok.mp h
  cases h
  refine isPrintable_assemble hscheme ?_ (isPrintable_routeFromRoot _ _) pieces
  rintro _ ⟨⟩
  exact isPrintable_authority hfound

theorem isPrintable_fileAddress {cs : List Char} {pieces : Pieces} {address : Address}
    (h : fileAddress cs pieces = .ok address) : address.IsPrintable := by
  have hempty : IsPrintableText "" := .of_chars (by decide)
  have hassembled : ∀ {host : Host} (route : Route), IsPrintableText host.text → route.IsPrintable →
      (assemble "file" (some ⟨"", "", host, none⟩) route pieces).IsPrintable := by
    intro host route hhost hroute
    refine isPrintable_assemble (.of_chars (by decide)) ?_ hroute pieces
    rintro _ ⟨⟩
    exact ⟨hempty, hempty, hhost⟩
  unfold fileAddress at h
  dsimp only at h
  split at h
  · split at h
    · split at h
      · cases h
        exact hassembled _ hempty (isPrintable_filePath _)
      · split at h
        · cases h
          exact hassembled _ hempty (isPrintable_filePath _)
        · obtain ⟨host, hhost, h⟩ := bind_eq_ok.mp h
          cases h
          refine hassembled _ ?_ (isPrintable_filePath _)
          split
          · exact hempty
          · exact isPrintableText_ofCommon hhost
    · cases h
      exact hassembled _ hempty (isPrintable_filePath _)
  · cases h
    exact hassembled _ hempty (isPrintable_filePath _)

theorem isPrintable_relative {base : Address} (hbase : base.IsPrintable) {cs : List Char}
    {pieces : Pieces} {address : Address} (h : relative base cs pieces = .ok address) :
    address.IsPrintable := by
  have hassembled : ∀ {route : Route}, route.IsPrintable →
      (assemble base.scheme base.authority route pieces).IsPrintable := fun hroute =>
    isPrintable_assemble hbase.scheme hbase.authority hroute pieces
  have hroute := hbase.route
  unfold relative at h
  dsimp only at h
  split at h
  · split at h
    · cases h
      have hkept : (assemble base.scheme none base.route pieces).IsPrintable :=
        isPrintable_assemble hbase.scheme (by simp) hbase.route pieces
      exact ⟨hkept.scheme, hkept.authority, hkept.route, hbase.query, hkept.fragment⟩
    · cases h
  · cases h
  · cases h
    have hkept := hassembled hbase.route
    split
    · exact ⟨hkept.scheme, hkept.authority, hkept.route, hbase.query, hkept.fragment⟩
    · exact hkept
  · rename_i parts c rest hparts
    rw [hparts] at hroute
    split at h
    · split at h
      · split at h
        · split at h
          · exact isPrintable_withAuthority hbase.scheme h
          · exact isPrintable_withAuthority hbase.scheme h
        · cases h
          exact hassembled (isPrintable_routeFrom (by simp) _ _)
      · cases h
        exact hassembled (isPrintable_routeFrom (by simp) _ _)
    · cases h
      exact hassembled (isPrintable_routeFrom
        (fun part hpart => hroute part (List.dropLast_subset _ hpart)) _ _)

theorem isPrintableAscii_toLower {c : Char} (h : IsPrintableAscii c) :
    IsPrintableAscii c.toLower := by
  have hall : ∀ n ≤ 0x7E, 0x20 ≤ n → IsPrintableAscii (Char.ofNat n).toLower := by decide
  have hc := hall c.toNat h.2 h.1
  rwa [Char.ofNat_toNat] at hc

theorem isPrintableAscii_of_isSchemeChar {c : Char} (h : isSchemeChar c = true) :
    IsPrintableAscii c := by
  have hrange : ∀ low high : Char, low.val ≤ c.val ∧ c.val ≤ high.val → 0x20 ≤ low.toNat →
      high.toNat ≤ 0x7E → IsPrintableAscii c := fun _ _ hc hlow hhigh =>
    ⟨Nat.le_trans hlow hc.1, Nat.le_trans hc.2 hhigh⟩
  have hbounds : ∀ low high : Char, (decide (low.val ≤ c.val) && decide (c.val ≤ high.val)) = true →
      low.val ≤ c.val ∧ c.val ≤ high.val := by
    intro low high hc
    simpa using hc
  simp only [isSchemeChar, Char.isAlphanum, Bool.or_eq_true, beq_iff_eq] at h
  obtain (((hletter | hdigit) | rfl) | rfl) | rfl := h
  · have hcase : (c.isUpper || c.isLower) = true := hletter
    obtain hupper | hlower := (Bool.or_eq_true_iff ..).mp hcase
    · exact hrange 'A' 'Z' (of_decide_eq_true hupper) (by decide) (by decide)
    · exact hrange 'a' 'z' (hbounds 'a' 'z' hlower) (by decide) (by decide)
  · exact hrange '0' '9' (hbounds '0' '9' hdigit) (by decide) (by decide)
  · decide
  · decide
  · decide

theorem isPrintable_scheme? {cs rest : List Char} {scheme : String}
    (h : scheme? cs = some (scheme, rest)) : IsPrintableText scheme := by
  unfold scheme? at h
  split at h
  · split at h
    · cases h
    · split at h
      · cases h
        rw [isPrintableText_ofList]
        intro c hc
        obtain ⟨d, hd, rfl⟩ := List.mem_map.mp hc
        exact isPrintableAscii_toLower
          (isPrintableAscii_of_isSchemeChar (List.all_eq_true.mp List.all_takeWhile d hd))
      · cases h
  · cases h

/-- An address that is read from some base has printable ASCII characters if the base has. -/
theorem isPrintable_readFrom {base : Option Address} (hbase : ∀ b ∈ base, b.IsPrintable)
    {text : String} {address : Address} (h : readFrom base text = .ok address) :
    address.IsPrintable := by
  have hnone : ∀ a ∈ (none : Option Authority), a.IsPrintable := by simp
  unfold readFrom at h
  dsimp only at h
  split at h
  · rename_i scheme rest hfound
    have hscheme := isPrintable_scheme? hfound
    split at h
    · exact isPrintable_fileAddress h
    split at h
    · split at h
      · rename_i found
        split at h
        · exact isPrintable_relative (hbase found rfl) h
        · exact isPrintable_withAuthority hscheme h
      · exact isPrintable_withAuthority hscheme h
    · split at h
      · exact isPrintable_withAuthority hscheme h
      · cases h
        exact isPrintable_assemble hscheme hnone (isPrintable_routeFromRoot _ _) _
      · cases h
        have hroute : (Route.opaqueText
            (String.ofList (Percent.encode Percent.isControl rest))).IsPrintable :=
          isPrintableText_encode (fun _ => id) rest
        exact isPrintable_assemble hscheme hnone hroute _
  · rename_i found _
    exact isPrintable_relative (hbase found rfl) h
  · cases h

end PageManifest.Url
