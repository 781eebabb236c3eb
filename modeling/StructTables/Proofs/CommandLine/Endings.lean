import StructTables.CommandLine.Run
import StructTables.Proofs.Group.Listing

/-! # How a run ends

A run ends in one of four ways: its directory is missing, its listing cannot be used, there is no
listing and so nothing to do, or its groups are converted. The first three leave the tree as it was. -/

namespace StructTables.CommandLine
open Text

/-! ## What is asked for -/

/-- Whether there is a text at the path, and this is its content. -/
def Reads (tree : FileTree) (path content : Text) : Prop :=
  ∃ bytes, tree.read path = .ok bytes ∧ decodeUtf8? bytes = some content

/-- The directory for outputs is given and is no directory. -/
def DirectoryFails (tree : FileTree) (invocation : Invocation) : Prop :=
  invocation.directory ≠ [] ∧ tree.isDirectory invocation.directory = false

/-- The groups are those of a listing, which is there and either cannot be read or has a malformed
line. -/
structure ListingFails (tree : FileTree) (invocation : Invocation) : Prop where
  listed : invocation.group = none
  there : tree.pathExists invocation.listing = true
  unusable : (∀ content, ¬ Reads tree invocation.listing content) ∨
    ∃ content, Reads tree invocation.listing content ∧
      ∃ line ∈ lines content, Group.IsMalformed line

/-- The groups are those of a listing, and there is none. -/
structure ListingMissing (tree : FileTree) (invocation : Invocation) : Prop where
  listed : invocation.group = none
  missing : tree.pathExists invocation.listing = false

/-- The groups to convert: the one of the command, or those that the lines of the listing describe. -/
inductive Configured (tree : FileTree) (invocation : Invocation) : List Group → Prop
  | command {group : Group} (given : invocation.group = some group) :
      Configured tree invocation [group]
  | listing {content : Text} {groups : List Group} (listed : invocation.group = none)
      (there : tree.pathExists invocation.listing = true)
      (reads : Reads tree invocation.listing content)
      (formed : ∀ line ∈ lines content, ¬ Group.IsMalformed line)
      (describe : Group.Describe invocation.directory (lines content) groups) :
      Configured tree invocation groups

theorem Reads.unique {tree : FileTree} {path content other : Text} (h : Reads tree path content)
    (hother : Reads tree path other) : content = other := by
  obtain ⟨bytes, hread, hdecode⟩ := h
  obtain ⟨others, hreads, hdecodes⟩ := hother
  cases Except.ok.inj (hread.symm.trans hreads)
  exact Option.some.inj (hdecode.symm.trans hdecodes)

theorem Configured.not_listingFails {tree : FileTree} {invocation : Invocation} {groups : List Group}
    (h : Configured tree invocation groups) : ¬ ListingFails tree invocation := by
  rintro ⟨hlisted, -, hunusable⟩
  cases h with
  | command given =>
    rw [hlisted] at given
    cases given
  | listing _ _ reads formed _ =>
    rcases hunusable with hnone | ⟨content, hreads, line, hline, hmalformed⟩
    · exact hnone _ reads
    · exact formed line (hreads.unique reads ▸ hline) hmalformed

theorem Configured.not_listingMissing {tree : FileTree} {invocation : Invocation}
    {groups : List Group} (h : Configured tree invocation groups) :
    ¬ ListingMissing tree invocation := by
  rintro ⟨hlisted, hmissing⟩
  cases h with
  | command given =>
    rw [hlisted] at given
    cases given
  | listing _ there =>
    rw [hmissing] at there
    cases there

/-! ## The ways to end -/

/-- The ways in which an invocation may end. -/
inductive Ends (tree : FileTree) (invocation : Invocation) : Run → Prop
  | noDirectory (fails : DirectoryFails tree invocation) :
      Ends tree invocation ((Failure.missingDirectory invocation.directory).run tree [])
  | unusable {e : ConversionError} (found : ¬ DirectoryFails tree invocation)
      (fails : ListingFails tree invocation) :
      Ends tree invocation ((Failure.unreadableListing invocation.listing e).run tree [])
  | nothing (found : ¬ DirectoryFails tree invocation) (missing : ListingMissing tree invocation) :
      Ends tree invocation { tree := tree }
  | converted {groups : List Group} (found : ¬ DirectoryFails tree invocation)
      (configured : Configured tree invocation groups) :
      Ends tree invocation (convert tree invocation.options groups)

theorem lacksDirectory_iff {tree : FileTree} {invocation : Invocation} :
    lacksDirectory tree invocation = true ↔ DirectoryFails tree invocation := by
  simp [lacksDirectory, DirectoryFails]

section Listing

variable {tree : FileTree} {invocation : Invocation}

theorem load_of_reads {path content : Text} (h : Reads tree path content) (directory : Text) :
    Group.load tree path directory = Group.ofListing path directory content := by
  obtain ⟨bytes, hread, hdecode⟩ := h
  simp [Group.load, hread, hdecode]

theorem exists_load_error {path : Text} (h : ∀ content, ¬ Reads tree path content)
    (directory : Text) : ∃ e, Group.load tree path directory = .error e := by
  unfold Group.load
  cases hread : tree.read path with
  | error refusal => exact ⟨_, rfl⟩
  | ok bytes =>
    cases hdecode : decodeUtf8? bytes with
    | none => exact ⟨.file path .notText, by simp [hdecode]⟩
    | some content => exact absurd ⟨bytes, hread, hdecode⟩ (h content)

theorem groups_of_listing (hlisted : invocation.group = none)
    (hthere : tree.pathExists invocation.listing = true) :
    groups tree invocation =
      (Group.load tree invocation.listing invocation.directory).mapError
        (.unreadableListing invocation.listing) := by
  simp only [groups, hlisted, hthere, Bool.not_true, Bool.false_eq_true, if_false]
  cases Group.load tree invocation.listing invocation.directory <;> rfl

theorem ListingFails.exists_groups_error (h : ListingFails tree invocation) :
    ∃ e, groups tree invocation = .error (.unreadableListing invocation.listing e) := by
  rw [groups_of_listing h.listed h.there]
  rcases h.unusable with hnone | ⟨content, hreads, hmalformed⟩
  · obtain ⟨e, he⟩ := exists_load_error hnone invocation.directory
    rw [he]
    exact ⟨e, rfl⟩
  · obtain ⟨_, _, _, fault, -, -, -, -, he⟩ :=
      Group.exists_ofListing_error invocation.listing invocation.directory hmalformed
    rw [load_of_reads hreads, he]
    exact ⟨_, rfl⟩

theorem exists_configured (hfails : ¬ ListingFails tree invocation)
    (hmissing : ¬ ListingMissing tree invocation) :
    ∃ gs, groups tree invocation = .ok gs ∧ Configured tree invocation gs := by
  cases hgroup : invocation.group with
  | some group => exact ⟨[group], by rw [groups, hgroup], .command hgroup⟩
  | none =>
    have hthere : tree.pathExists invocation.listing = true := by
      by_contra hnone
      exact hmissing ⟨hgroup, by simpa using hnone⟩
    have hreads : ∃ content, Reads tree invocation.listing content := by
      by_contra hnone
      exact hfails ⟨hgroup, hthere, .inl (not_exists.mp hnone)⟩
    obtain ⟨content, hreads⟩ := hreads
    have hformed : ∀ line ∈ lines content, ¬ Group.IsMalformed line := fun line hline hmalformed =>
      hfails ⟨hgroup, hthere, .inr ⟨content, hreads, line, hline, hmalformed⟩⟩
    obtain ⟨gs, hgs, hdescribe⟩ :=
      Group.exists_ofListing_ok invocation.listing invocation.directory hformed
    refine ⟨gs, ?_, .listing hgroup hthere hreads hformed hdescribe⟩
    rw [groups_of_listing hgroup hthere, load_of_reads hreads, hgs]
    rfl

end Listing

theorem ends (tree : FileTree) (invocation : Invocation) :
    Ends tree invocation (perform tree invocation) := by
  by_cases hdirectory : DirectoryFails tree invocation
  · rw [perform, if_pos (lacksDirectory_iff.mpr hdirectory)]
    exact .noDirectory hdirectory
  rw [perform, if_neg (mt lacksDirectory_iff.mp hdirectory)]
  by_cases hfails : ListingFails tree invocation
  · obtain ⟨e, he⟩ := hfails.exists_groups_error
    rw [he]
    exact .unusable hdirectory hfails
  by_cases hmissing : ListingMissing tree invocation
  · have hnone : groups tree invocation = .ok [] := by
      simp [groups, hmissing.listed, hmissing.missing]
    rw [hnone]
    exact .nothing hdirectory hmissing
  · obtain ⟨gs, hgs, hconfigured⟩ := exists_configured hfails hmissing
    rw [hgs]
    exact .converted hdirectory hconfigured

/-! ## What a conversion answers -/

section Convert

variable (tree : FileTree) (options : Options) (groups : List Group)

/-- How many of the groups fail. -/
def failures : Nat := (Group.convertAll options tree groups).countP isFailure

theorem failures_eq_zero_iff :
    failures tree options groups = 0 ↔
      ∀ outcome ∈ Group.convertAll options tree groups,
        ∃ conversion, outcome.result = .ok conversion := by
  rw [failures, List.countP_eq_zero]
  refine forall₂_congr fun outcome _ => ?_
  cases h : outcome.result <;> simp [isFailure, h]

theorem tree_convert :
    (convert tree options groups).tree =
      Group.finalTree tree (Group.convertAll options tree groups) := by
  unfold convert
  dsimp only
  split <;> rfl

theorem convert_of_no_failure (h : failures tree options groups = 0) :
    (convert tree options groups).exitCode = 0 := by
  have hnone : (Group.convertAll options tree groups).countP isFailure = 0 := h
  simp only [convert, hnone, if_true]

theorem convert_of_failures (h : failures tree options groups ≠ 0) :
    (convert tree options groups).exitCode = 1 ∧
      (convert tree options groups).error =
        some ("cstruct-csv error: ".toList ++ (ofNat (failures tree options groups) ++
          " of ".toList ++ ofNat groups.length ++ " conversion groups failed".toList)) := by
  let outcomes := Group.convertAll options tree groups
  have hconvert : convert tree options groups =
      (Failure.failedGroups (failures tree options groups) groups.length).run
        (Group.finalTree tree outcomes) (outcomes.flatMap Group.Outcome.log) := if_neg h
  rw [hconvert]
  exact ⟨rfl, rfl⟩

end Convert

/-- A run does nothing until it knows its groups, and fails if it cannot; without a listing it has
nothing to do. Otherwise it converts all groups, and its answer counts those that fail. -/
theorem run_ends {arguments : List Text} {invocation : Invocation}
    (h : Invocation.ofArguments arguments = .ok invocation) (tree : FileTree) :
    let run := run tree arguments
    (DirectoryFails tree invocation ∨ ListingFails tree invocation →
        run.exitCode = 1 ∧ run.tree = tree) ∧
      (¬ DirectoryFails tree invocation → ListingMissing tree invocation →
        run.exitCode = 0 ∧ run.tree = tree) ∧
      (¬ DirectoryFails tree invocation → ¬ ListingFails tree invocation →
        ¬ ListingMissing tree invocation →
        ∃ groups, Configured tree invocation groups ∧
          let outcomes := Group.convertAll invocation.options tree groups
          run.tree = Group.finalTree tree outcomes ∧
          (run.exitCode = 0 ↔ ∀ outcome ∈ outcomes, ∃ conversion, outcome.result = .ok conversion) ∧
          (run.exitCode ≠ 0 → run.exitCode = 1 ∧
            run.error = some ("cstruct-csv error: ".toList ++ (ofNat (outcomes.countP isFailure) ++
              " of ".toList ++ ofNat groups.length ++ " conversion groups failed".toList)))) := by
  have hends := ends tree invocation
  have hrun : run tree arguments = perform tree invocation := by rw [run, h]
  rw [hrun]
  generalize perform tree invocation = run at hends
  cases hends with
  | noDirectory fails =>
    exact ⟨fun _ => ⟨rfl, rfl⟩, fun found => absurd fails found, fun found => absurd fails found⟩
  | unusable found fails =>
    refine ⟨fun _ => ⟨rfl, rfl⟩, fun _ missing => ?_, fun _ usable => absurd fails usable⟩
    exact absurd fails.there (by simp [missing.missing])
  | nothing found missing =>
    refine ⟨fun fails => ?_, fun _ _ => ⟨rfl, rfl⟩, fun _ _ present => absurd missing present⟩
    rcases fails with fails | fails
    · exact absurd fails found
    · exact absurd fails.there (by simp [missing.missing])
  | @converted groups found configured =>
    refine ⟨fun fails => ?_, fun _ missing => absurd missing configured.not_listingMissing,
      fun _ _ _ => ⟨groups, configured, tree_convert .., ?_, fun hcode => ?_⟩⟩
    · exact fails.elim (absurd · found) (absurd · configured.not_listingFails)
    · rw [← failures_eq_zero_iff]
      by_cases hzero : failures tree invocation.options groups = 0
      · exact iff_of_true (convert_of_no_failure _ _ _ hzero) hzero
      · exact iff_of_false (by simp [(convert_of_failures _ _ _ hzero).1]) hzero
    · by_cases hzero : failures tree invocation.options groups = 0
      · exact absurd (convert_of_no_failure _ _ _ hzero) hcode
      · exact convert_of_failures _ _ _ hzero

/-- A malformed line stops the run, although the line above it describes a group. -/
theorem run_of_malformed_line :
    let content := "A, telemetry, a.csv, a.h\n# rest\nB, , b.csv, b.h\n".toList
    let tree : FileTree :=
      ⟨[(["conversion_paths".toList], .file (encodeUtf8 content)), (["a.h".toList], .file [])], []⟩
    Invocation.ofArguments [] = .ok (.ofGiven {} {} none) ∧
      ListingFails tree (.ofGiven {} {} none) ∧
      (run tree []).exitCode = 1 ∧ (run tree []).tree = tree := by
  intro content tree
  have harguments : Invocation.ofArguments [] = .ok (.ofGiven {} {} none) := rfl
  have hline : "B, , b.csv, b.h".toList ∈ lines content := by decide
  have hfails : ListingFails tree (.ofGiven {} {} none) :=
    ⟨rfl, by decide +kernel, .inr ⟨content, ⟨encodeUtf8 content, by decide +kernel, by decide +kernel⟩,
      _, hline, by decide⟩⟩
  exact ⟨harguments, hfails, (run_ends harguments tree).1 (.inr hfails)⟩

end StructTables.CommandLine
