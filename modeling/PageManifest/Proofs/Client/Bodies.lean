import PageManifest.Proofs.Client.Calls
import PageManifest.Proofs.Http.Exchanges
import PageManifest.Proofs.Json.RoundTrip

/-!
# The bodies of requests

What a client sends can be read back to what it was given, so that the server sees no other page
description or address (`sent_bodies`). A page description to be converted is sent one level
deeper than it is, so it may be one level less deep than one to be checked; an address is sent
as it stands, whatever characters it is of.
-/

namespace PageManifest

namespace Manifest

/-- A page description without floating-point numbers that may be sent inside another. -/
structure IsPlain (manifest : Manifest) : Prop where
  wholeNumbers : manifest.toValue.WholeNumbers
  distinctKeys : manifest.toValue.DistinctKeys
  depth_le : manifest.toValue.depth ≤ 126

/-- The JSON text of a mapping is read back as it is. -/
theorem ofJson_write {entries : List (String × Value)}
    (hwhole : Value.WholeNumbers (.mapping entries))
    (hkeys : Value.DistinctKeys (.mapping entries)) (hdepth : Value.depth (.mapping entries) ≤ 127) :
    ofJson (Json.write (.mapping entries)) = .ok ⟨entries⟩ := by
  obtain ⟨hread, -⟩ := Json.read_write hwhole hkeys
  rw [ofJson, hread (Nat.lt_succ_of_le hdepth)]
  rfl

end Manifest

namespace Client

open Manifest

/-! ## Bodies -/

theorem ofJson_validationBody {manifest : Manifest} (h : manifest.IsPlain) :
    ofJson manifest.toJson = .ok manifest :=
  ofJson_write h.wholeNumbers h.distinctKeys (h.depth_le.trans (by decide))

theorem ofJson_conversionBody {manifest : Manifest} (h : manifest.IsPlain) :
    ofJson (conversionBody manifest) =
      .ok ⟨[("manifest", manifest.toValue), ("options", .mapping [])]⟩ := by
  refine ofJson_write ?_ ?_ ?_
  · exact ⟨h.wholeNumbers, trivial, trivial⟩
  · have hnames :
        (OrderedMap.keys [("manifest", manifest.toValue), ("options", .mapping [])]).Nodup := by
      simp
    exact ⟨hnames, h.distinctKeys, ⟨List.nodup_nil, trivial⟩, trivial⟩
  · have hdepth := h.depth_le
    simp only [Value.depth, Value.depthEntries]
    omega

theorem ofJson_pageBody (url : String) :
    ofJson (pageBody url) = .ok ⟨[("url", .string url)]⟩ := by
  refine ofJson_write ⟨trivial, trivial⟩ ⟨List.pairwise_singleton _ _, trivial, trivial⟩ ?_
  simp [Value.depth, Value.depthEntries]

/-! ## Requests -/

/-- The server is reached at a path, by a client that waits for it. -/
def Reaches (client : Client) (world : World) (path : String) : Prop :=
  client.timeout ≠ some 0 ∧
    ∃ address, Http.Network.addressOf (client.baseUrl ++ path) = .ok address ∧
      world.network.obstacle address = none

/-- The first of the requests that are made from one world to another has a body. -/
def Sends (world later : World) (body : String) : Prop :=
  ∃ first more, later.network.requests = world.network.requests ++ first :: more ∧
    first.body = body

theorem sends_of_call {client : Client} {world later : World} {path body : String}
    (hreached : client.Reaches world path)
    (hnetwork : later.network = (client.call world.network ⟨.post, path, some body⟩).2) :
    Sends world later body := by
  obtain ⟨htimeout, address, haddress, hobstacle⟩ := hreached
  obtain ⟨hops, hexchanged⟩ :=
    world.network.exchange_exchanged .post (some body) htimeout haddress
  obtain ⟨first, more, rfl, -, hrequest⟩ := hexchanged.exists_first hobstacle
  refine ⟨first.request, more.map (·.request), ?_, by rw [hrequest]; rfl⟩
  rw [hnetwork, call, hexchanged.later_eq, List.map_cons]

/-- What a client was given is what its first request says: a page description to be converted
or checked, and the address of a page. Different ones are never sent alike. -/
theorem sent_bodies (client : Client) (world : World) :
    (∀ manifest format, manifest.IsPlain → client.Reaches world format.endpoint →
      Sends world (client.tryConvert world manifest format).2 (conversionBody manifest) ∧
        ofJson (conversionBody manifest) =
          .ok ⟨[("manifest", manifest.toValue), ("options", .mapping [])]⟩) ∧
    (∀ manifest, manifest.IsPlain → client.Reaches world validationPath →
      Sends world (client.tryValidate world manifest).2 manifest.toJson ∧
        ofJson manifest.toJson = .ok manifest) ∧
    (∀ url, client.Reaches world pagePath →
      Sends world (client.tryPage world url).2 (pageBody url) ∧
        (Source.startsWithScheme url = true →
          Sends world (client.tryLoad world url).2 (pageBody url)) ∧
        ofJson (pageBody url) = .ok ⟨[("url", .string url)]⟩) ∧
    (∀ manifest other, manifest.IsPlain → other.IsPlain → manifest ≠ other →
      conversionBody manifest ≠ conversionBody other ∧ manifest.toJson ≠ other.toJson) ∧
    ∀ url other, url ≠ other → pageBody url ≠ pageBody other := by
  refine ⟨?_, ?_, ?_, ?_, ?_⟩
  · intro manifest format hplain hreached
    obtain ⟨-, hnetwork, -⟩ := client.tryConvert_call world manifest format
    exact ⟨sends_of_call hreached hnetwork, ofJson_conversionBody hplain⟩
  · intro manifest hplain hreached
    obtain ⟨-, hnetwork, -⟩ := client.tryValidate_call world manifest
    exact ⟨sends_of_call hreached hnetwork, ofJson_validationBody hplain⟩
  · intro url hreached
    obtain ⟨-, hnetwork, -⟩ := client.tryPage_call world url
    have hpage : Sends world (client.tryPage world url).2 (pageBody url) :=
      sends_of_call hreached hnetwork
    refine ⟨hpage, ?_, ofJson_pageBody url⟩
    intro hscheme
    rw [tryLoad, Source.ofText, if_pos hscheme]
    exact hpage
  · intro manifest other hplain hother hne
    constructor
    · intro hbody
      have hread := (ofJson_conversionBody hplain).symm.trans
        (hbody ▸ ofJson_conversionBody hother)
      obtain ⟨entries⟩ := manifest
      obtain ⟨others⟩ := other
      simp only [Except.ok.injEq, Manifest.mk.injEq, List.cons.injEq, Prod.mk.injEq, toValue,
        Value.mapping.injEq, true_and, and_true] at hread
      exact hne (by rw [hread])
    · intro hbody
      have hread := (ofJson_validationBody hplain).symm.trans
        (hbody ▸ ofJson_validationBody hother)
      exact hne (Except.ok.inj hread)
  · intro url other hne hbody
    have hread := (ofJson_pageBody url).symm.trans (hbody ▸ ofJson_pageBody other)
    simp only [Except.ok.injEq, Manifest.mk.injEq, List.cons.injEq, Prod.mk.injEq,
      Value.string.injEq, true_and, and_true] at hread
    exact hne hread

theorem sent_bodies_of_quotes :
    let client : Client := { baseUrl := "http://localhost" }
    let world : World :=
      { network := { obstacle := fun _ => none, script := [] }
        files := { entries := [], workingDirectory := [] } }
    let manifest : Manifest := ⟨[("\"", .string "\\\n")]⟩
    let url := "http://localhost/\"\x00"
    Sends world (client.tryConvert world manifest .html).2 (conversionBody manifest) ∧
      Sends world (client.tryValidate world manifest).2 manifest.toJson ∧
      Sends world (client.tryLoad world url).2 (pageBody url) ∧
      conversionBody manifest ≠ conversionBody .empty := by
  intro client world manifest url
  have hplain : manifest.IsPlain :=
    ⟨⟨trivial, trivial⟩, ⟨List.pairwise_singleton _ _, trivial, trivial⟩, by decide⟩
  have hempty : Manifest.empty.IsPlain := ⟨trivial, ⟨List.nodup_nil, trivial⟩, by decide⟩
  have hread : ∀ path ∈ [Format.html.endpoint, validationPath, pagePath],
      (Http.Network.addressOf (client.baseUrl ++ path)).toOption.isSome := by
    decide +kernel
  have hreached : ∀ path ∈ [Format.html.endpoint, validationPath, pagePath],
      client.Reaches world path := by
    intro path hpath
    have hsome := hread path hpath
    cases haddress : Http.Network.addressOf (client.baseUrl ++ path) with
    | ok address => exact ⟨(by simp [client]), address, haddress, rfl⟩
    | error failure =>
      rw [haddress] at hsome
      cases hsome
  obtain ⟨hconvert, hvalidate, hpage, hmanifest, -⟩ := sent_bodies client world
  refine ⟨(hconvert manifest .html hplain (hreached _ (by simp))).1,
    (hvalidate manifest hplain (hreached _ (by simp))).1,
    (hpage url (hreached _ (by simp))).2.1 (by decide),
    (hmanifest manifest .empty hplain hempty ?_).1⟩
  intro hsame
  cases congrArg keys hsame

end Client

end PageManifest
