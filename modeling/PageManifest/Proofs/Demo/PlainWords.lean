import PageManifest.Demo
import PageManifest.Proofs.Client.PlainWords

/-!
# The words of the example session

With plain paths in its settings the example session says plain lines only and leaves plain
surroundings (`run_saysPlain`), whichever of its examples come to an end. What it says of a page
is quoted, so nothing is asked of the names of the page's sections.
-/

namespace PageManifest

/-- The paths of the settings have no escape character. -/
structure DemoSettings.IsPlain (settings : DemoSettings) : Prop where
  manifestFile : Text.EscapeFree settings.manifestFile
  outputDirectory : Text.EscapeFree settings.outputDirectory
  generatedFile : Text.EscapeFree settings.generatedFile

namespace Demo

open Text (EscapeFree escapeFree_append)

/-! ## What is said -/

theorem escapeFree_quotedList (texts : List String) : EscapeFree (quotedList texts) := by
  have hinner : EscapeFree (", ".intercalate (texts.map Text.Quoted.quote)) := by
    refine Text.escapeFree_intercalate (.of_chars (by decide)) ?_
    intro text hmem
    obtain ⟨plain, -, rfl⟩ := List.mem_map.mp hmem
    exact Text.escapeFree_quote plain
  show EscapeFree ("[" ++ ", ".intercalate (texts.map Text.Quoted.quote) ++ "]")
  simp only [escapeFree_append]
  exact ⟨⟨.of_chars (by decide), hinner⟩, .of_chars (by decide)⟩

theorem escapeFree_summaryRow {report : BatchReport} (h : report.IsPlain) (format : Format) :
    ∀ text ∈ summaryRow report format, EscapeFree text := by
  unfold summaryRow
  rw [List.forall_mem_cons, List.forall_mem_singleton]
  refine ⟨format.escapeFree_name, ?_⟩
  split
  · rename_i hpath
    exact h.written _ (OrderedMap.mem_of_lookup_eq_some hpath)
  · rename_i hmessage
    exact escapeFree_append.mpr ⟨.of_chars (by decide), h.failed _ (OrderedMap.mem_of_lookup_eq_some hmessage)⟩
  · exact .of_chars (by decide)

theorem isPlain_summaryTable {report : BatchReport} (h : report.IsPlain) :
    (summaryTable report).IsPlain := by
  constructor
  · rw [summaryTable, List.forall_mem_cons, List.forall_mem_singleton]
    exact ⟨.of_chars (by decide), .of_chars (by decide)⟩
  · intro row hmem
    obtain ⟨format, -, rfl⟩ := List.mem_map.mp hmem
    exact escapeFree_summaryRow h format

/-! ## The examples -/

variable (client : Client) {settings : DemoSettings} {world : World}

theorem checkAndConvert_saysPlain (hsettings : settings.IsPlain) (hworld : world.IsPlain)
    (manifest : Manifest) :
    SaysPlain (fun _ => True) (checkAndConvert client settings manifest world) := by
  have hvalidate := client.validate_saysPlain hworld manifest
  unfold checkAndConvert
  generalize client.validate world manifest = outcome at hvalidate
  obtain ⟨verdict, checked⟩ := outcome
  dsimp only
  split
  · have hbatch := client.batch_saysPlain hvalidate.world manifest hsettings.outputDirectory
    generalize client.batch checked manifest settings.outputDirectory = outcome at hbatch
    obtain ⟨batch, converted⟩ := outcome
    have hvalid : (StatusLine.success "Manifest is valid").IsPlain :=
      show EscapeFree "Manifest is valid" from .of_chars (by decide)
    have htable : (StatusLine.table (summaryTable batch.value)).IsPlain :=
      isPlain_summaryTable hbatch.value
    refine ⟨trivial, ?_, hbatch.world⟩
    exact List.forall_mem_append.mpr ⟨List.forall_mem_append.mpr ⟨hvalidate.lines,
      List.forall_mem_cons.mpr ⟨hvalid, hbatch.lines⟩⟩, List.forall_mem_singleton.mpr htable⟩
  · have hinvalid : (StatusLine.failure "Manifest validation failed:").IsPlain :=
      show EscapeFree "Manifest validation failed:" from .of_chars (by decide)
    have hdetails : ∀ line ∈ verdict.value.errors.map StatusLine.detail, line.IsPlain := by
      intro line hmem
      obtain ⟨message, hmessage, rfl⟩ := List.mem_map.mp hmem
      exact hvalidate.value message hmessage
    refine ⟨trivial, ?_, hvalidate.world⟩
    exact List.forall_mem_append.mpr ⟨hvalidate.lines,
      List.forall_mem_cons.mpr ⟨hinvalid, hdetails⟩⟩

theorem fileExample_saysPlain (hsettings : settings.IsPlain) (hworld : world.IsPlain) :
    SaysPlain (fun _ => True) (fileExample client settings world) := by
  have hsource : (Source.ofText settings.manifestFile).IsPlain := by
    unfold Source.ofText
    split
    · trivial
    · exact hsettings.manifestFile
  have hheading : (StatusLine.heading .file ("Loading manifest: " ++ settings.manifestFile)).IsPlain :=
    ⟨trivial, escapeFree_append.mpr ⟨.of_chars (by decide), hsettings.manifestFile⟩⟩
  unfold fileExample
  dsimp only
  split
  · have hload := client.load_saysPlain hworld hsource
    generalize client.load world settings.manifestFile = outcome at hload
    obtain ⟨loaded, later⟩ := outcome
    dsimp only
    split
    · exact ⟨trivial, List.forall_mem_cons.mpr ⟨hheading, hload.lines⟩, hload.world⟩
    · have hchecked := checkAndConvert_saysPlain client hsettings hload.world loaded.value
      generalize checkAndConvert client settings loaded.value later = outcome at hchecked
      obtain ⟨result, converted⟩ := outcome
      exact ⟨trivial, List.forall_mem_append.mpr
        ⟨List.forall_mem_cons.mpr ⟨hheading, hload.lines⟩, hchecked.lines⟩, hchecked.world⟩
  · exact ⟨trivial, by simp, hworld.note _ _ _⟩

theorem pageExample_saysPlain (settings : DemoSettings) (hworld : world.IsPlain) :
    SaysPlain (fun _ => True) (pageExample client settings world) := by
  have hheading : (StatusLine.heading .url "Converting URL to manifest...").IsPlain :=
    ⟨trivial, .of_chars (by decide)⟩
  have hpage := client.page_saysPlain hworld settings.sampleUrl
  unfold pageExample
  generalize client.page world settings.sampleUrl = outcome at hpage
  obtain ⟨page, later⟩ := outcome
  have hlines := List.forall_mem_cons.mpr ⟨hheading, hpage.lines⟩
  dsimp only
  split
  · exact ⟨trivial, hlines, hpage.world⟩
  · have hsuccess : (StatusLine.success "URL converted to manifest").IsPlain :=
      show EscapeFree "URL converted to manifest" from .of_chars (by decide)
    have hkeys : (StatusLine.progress ("Structure: " ++ quotedList page.value.keys)).IsPlain :=
      escapeFree_append.mpr ⟨.of_chars (by decide), escapeFree_quotedList _⟩
    exact ⟨trivial, List.forall_mem_append.mpr ⟨hlines,
      List.forall_mem_cons.mpr ⟨hsuccess, List.forall_mem_singleton.mpr hkeys⟩⟩, hpage.world⟩

theorem isPlain_writeBelow {tree : FileTree} (h : tree.IsPlain) (directory path : String)
    {content : String} (hcontent : Yaml.KeysEscapeFree content) :
    (writeBelow tree directory path content).2.IsPlain := by
  have hensured := h.created (tree.ensureDirectory_created directory)
  unfold writeBelow
  generalize tree.ensureDirectory directory = outcome at hensured
  obtain ⟨fault?, prepared⟩ := outcome
  cases fault? with
  | some fault => exact hensured
  | none =>
    dsimp only
    split
    · rename_i hwrite
      exact hensured.written hcontent hwrite
    · exact hensured

theorem builtInExample_saysPlain (hsettings : settings.IsPlain) (hworld : world.IsPlain) :
    SaysPlain (fun _ => True) (builtInExample client settings world) := by
  have hheading : (StatusLine.heading .build "Creating dynamic manifest...").IsPlain :=
    ⟨trivial, .of_chars (by decide)⟩
  have hconvert := client.convert_saysPlain hworld .sample .html
  unfold builtInExample
  generalize client.convert world .sample .html = outcome at hconvert
  obtain ⟨html, later⟩ := outcome
  have hlines := List.forall_mem_cons.mpr ⟨hheading, hconvert.lines⟩
  dsimp only
  split
  · exact ⟨trivial, hlines, hconvert.world⟩
  · rename_i hcontent
    have hheld : Text.HoldsPlain html.value := by
      refine hconvert.value.resolve_left fun hempty => hcontent ?_
      rw [hempty]
      rfl
    have hwritten := isPlain_writeBelow hconvert.world.files settings.outputDirectory
      (Path.join settings.outputDirectory settings.generatedFile) hheld.keys
    generalize writeBelow later.files settings.outputDirectory _ html.value = written at hwritten
    obtain ⟨fault?, files⟩ := written
    have hlater : World.IsPlain { later with files } := ⟨hconvert.world.answers, hwritten⟩
    cases fault? with
    | none =>
      have hsaved : (StatusLine.success "Dynamic manifest converted and saved").IsPlain :=
        show EscapeFree "Dynamic manifest converted and saved" from .of_chars (by decide)
      exact ⟨trivial, List.forall_mem_append.mpr ⟨hlines, List.forall_mem_singleton.mpr hsaved⟩,
        hlater⟩
    | some fault =>
      have hpath := Client.escapeFree_join hsettings.outputDirectory hsettings.generatedFile
      have hfailed : (StatusLine.failure ("Could not write " ++
          Path.join settings.outputDirectory settings.generatedFile ++ ": " ++
          fault.message)).IsPlain := by
        show EscapeFree _
        simp only [escapeFree_append]
        exact ⟨⟨⟨.of_chars (by decide), hpath⟩, .of_chars (by decide)⟩, fault.escapeFree_message⟩
      exact ⟨trivial, List.forall_mem_append.mpr ⟨hlines, List.forall_mem_singleton.mpr hfailed⟩,
        hlater⟩

/-- All that the session says is plain, and so are the files that it leaves. -/
theorem run_saysPlain (hsettings : settings.IsPlain) (hworld : world.IsPlain) :
    SaysPlain (fun _ => True) (run client settings world) := by
  have hhealth := client.health_saysPlain hworld
  unfold run
  generalize client.health world = outcome at hhealth
  obtain ⟨healthy, served⟩ := outcome
  dsimp only
  split
  · have hfile := fileExample_saysPlain client hsettings hhealth.world
    generalize fileExample client settings served = outcome at hfile
    obtain ⟨file, loaded⟩ := outcome
    have hpage := pageExample_saysPlain client settings hfile.world
    dsimp only
    generalize pageExample client settings loaded = outcome at hpage
    obtain ⟨page, scraped⟩ := outcome
    have hbuilt := builtInExample_saysPlain client hsettings hpage.world
    dsimp only
    generalize builtInExample client settings scraped = outcome at hbuilt
    obtain ⟨builtIn, rendered⟩ := outcome
    have hconnected : (StatusLine.success "Connected to manifest server").IsPlain :=
      show EscapeFree "Connected to manifest server" from .of_chars (by decide)
    refine ⟨trivial, ?_, hbuilt.world⟩
    simp only [List.forall_mem_append, List.forall_mem_cons]
    exact ⟨⟨⟨hhealth.lines, hconnected, hfile.lines⟩, hpage.lines⟩, hbuilt.lines⟩
  · have hstopped : (StatusLine.failure "Manifest server is not running!").IsPlain :=
      show EscapeFree "Manifest server is not running!" from .of_chars (by decide)
    have hhint : (StatusLine.progress "Start it with: npm start").IsPlain :=
      show EscapeFree "Start it with: npm start" from .of_chars (by decide)
    refine ⟨trivial, ?_, hhealth.world⟩
    exact List.forall_mem_append.mpr ⟨hhealth.lines,
      List.forall_mem_cons.mpr ⟨hstopped, List.forall_mem_singleton.mpr hhint⟩⟩

end Demo

end PageManifest
