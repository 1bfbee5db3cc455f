import EdgeScope.Agent.DiagnosticCollector
import EdgeScope.Text.Lines

/-!
# One `CreateBundle`

Everything before the archive happens below the staging directory, which is removed. So a
call whose paths are fresh either registers an archive or leaves the directory as it was.
-/

namespace EdgeScope.DiagnosticCollector
open Text FileTree

theorem bundleId_sequence {t t' pid pid' n n' : ℕ} (h : bundleId t pid n = bundleId t' pid' n') :
    n = n' := by
  have hdash (m : ℕ) : (45 : Byte) ∉ decimal m := fun hm => by
    have := isDigit_of_mem_decimal hm
    simp [isDigit] at this
  have hlast (t pid n : ℕ) : unterminated 45 (bundleId t pid n) = decimal n := by
    have hsplit : bundleId t pid n = decimal t ++ 45 :: (decimal pid ++ 45 :: decimal n) := by
      simp [bundleId, ascii, charByte]
    rw [hsplit, unterminated_append_cons (hdash t), unterminated_append_cons (hdash pid),
      unterminated_of_notMem (hdash n)]
  exact decimal_injective (by rw [← hlast t pid n, h, hlast])

theorem archivePath_injective : Function.Injective archivePath := by
  intro id id' h
  simp only [archivePath, archiveName, List.cons.injEq, and_true] at h
  exact List.append_cancel_left (List.append_cancel_right h)

/-- The names of the two begin with different letters. -/
theorem stagingPath_not_prefix_archivePath (id id' : Bytes) :
    ¬ stagingPath id <+: archivePath id' := by
  intro h
  have hhead : (ascii "staging-" ++ id).head? = (archiveName id').head? := by
    rw [stagingPath, archivePath, List.cons_prefix_cons] at h
    rw [h.1]
  simp [archiveName, ascii, charByte] at hhead

section Staging

variable {env : BundleEnvironment} {logCollector : LogCollector} {metrics : SystemMetrics}
  {staging : Path}

theorem Staging.agreesOutside_andThen {step : Staging → Staging} {tree : FileTree} {st : Staging}
    (hstep : ∀ st, AgreesOutside staging st.tree (step st).tree)
    (h : AgreesOutside staging tree st.tree) :
    AgreesOutside staging tree (st.andThen step).tree := by
  unfold Staging.andThen
  split
  · exact h
  · exact h.trans (hstep st)

theorem writeTextFile_agrees {path : Path} (h : staging <+: path) (contents : Bytes)
    (st : Staging) :
    AgreesOutside staging st.tree (writeTextFile env path contents st).tree := by
  unfold writeTextFile
  split
  · exact AgreesOutside.set h st.tree _
  · exact AgreesOutside.set h st.tree _
  · exact AgreesOutside.set h st.tree _

theorem collectProcesses_agrees (st : Staging) :
    AgreesOutside staging st.tree (collectProcesses env staging st).tree := by
  unfold collectProcesses
  split
  · exact .refl staging st.tree
  · exact writeTextFile_agrees (List.prefix_append ..) _ st

theorem collectNetwork_agrees (st : Staging) :
    AgreesOutside staging st.tree (collectNetwork env staging st).tree := by
  unfold collectNetwork
  exact writeTextFile_agrees (List.prefix_append ..) _ _

theorem createLogsDirectory_agrees (st : Staging) :
    AgreesOutside staging st.tree (createLogsDirectory env staging st).tree := by
  unfold createLogsDirectory
  split
  · exact .refl staging st.tree
  · exact AgreesOutside.set (List.prefix_append ..) st.tree _

theorem collectLog_agrees (source : LogSourceInfo) (st : Staging) :
    AgreesOutside staging st.tree (collectLog env logCollector staging source st).tree := by
  unfold collectLog
  split
  · split
    · exact .refl staging st.tree
    · exact writeTextFile_agrees
        ((List.prefix_append ..).trans (List.prefix_append ..)) _ st
  · exact .refl staging st.tree

theorem collectLogs_agrees (st : Staging) :
    AgreesOutside staging st.tree (collectLogs env logCollector staging st).tree := by
  unfold collectLogs
  have hfold (sources : List LogSourceInfo) (st' : Staging)
      (h : AgreesOutside staging st.tree st'.tree) :
      AgreesOutside staging st.tree (sources.foldl
        (fun st source => st.andThen (collectLog env logCollector staging source)) st').tree := by
    induction sources generalizing st' with
    | nil => exact h
    | cons source sources ih =>
      exact ih _ (Staging.agreesOutside_andThen (collectLog_agrees source) h)
  exact hfold _ st (.refl staging st.tree)

/-- What is collected is written below the staging directory. -/
theorem collect_agrees (st : Staging) :
    AgreesOutside staging st.tree (collect env logCollector metrics staging st).tree := by
  unfold collect
  have hwrite (name : Bytes) (contents : Bytes) (st : Staging) :
      AgreesOutside staging st.tree (writeTextFile env (staging ++ [name]) contents st).tree :=
    writeTextFile_agrees (List.prefix_append ..) contents st
  refine Staging.agreesOutside_andThen (fun st => hwrite _ _ st) ?_
  refine Staging.agreesOutside_andThen collectLogs_agrees ?_
  refine Staging.agreesOutside_andThen createLogsDirectory_agrees ?_
  refine Staging.agreesOutside_andThen collectNetwork_agrees ?_
  refine Staging.agreesOutside_andThen collectProcesses_agrees ?_
  refine Staging.agreesOutside_andThen (hwrite _ _) ?_
  exact Staging.agreesOutside_andThen (hwrite _ _) (.refl staging st.tree)

end Staging

/-- `tar` writes the archive only, or nothing; without an error the archive is a file. -/
theorem createTarGzip_cases (env : BundleEnvironment) (archive : Path) (st : Staging) :
    let st' := st.andThen (createTarGzip env archive)
    (st'.error ≠ none ∧
      (st'.tree = st.tree ∨ ∃ node, st'.tree = st.tree.set archive node)) ∨
    (st'.error = none ∧ ∃ contents, st'.tree = st.tree.set archive (some (.file contents))) := by
  unfold Staging.andThen
  split
  · rename_i error herror
    exact .inl ⟨by simp [herror], .inl rfl⟩
  · rename_i hnone
    unfold createTarGzip
    split
    · exact .inr ⟨hnone, _, rfl⟩
    · exact .inl ⟨by simp, .inl rfl⟩
    · exact .inl ⟨by simp, .inr ⟨_, rfl⟩⟩

theorem removeOldBundles_fst (bundles : List StoredBundle) (tree : FileTree) :
    (removeOldBundles bundles tree).1 = bundles.rtake kMaximumBundles := by
  induction bundles generalizing tree with
  | nil => rfl
  | cons bundle bundles ih =>
    rw [removeOldBundles]
    split
    · rename_i h
      rw [List.length_cons] at h
      have htail : kMaximumBundles ≤ (bundle :: bundles).tail.length := by
        rw [List.tail_cons]
        omega
      rw [ih, ← rtake_tail htail, List.tail_cons]
    · rename_i h
      exact (rtake_of_length_le (Nat.le_of_not_lt h)).symm

theorem removeOldBundles_snd (bundles : List StoredBundle) (tree : FileTree) (p : Path) :
    (removeOldBundles bundles tree).2 p =
      if p ∈ (bundles.take (bundles.length - kMaximumBundles)).map (·.path) then none
      else tree p := by
  induction bundles generalizing tree with
  | nil => rfl
  | cons bundle bundles ih =>
    rw [removeOldBundles]
    split
    · rename_i h
      have hlen : (bundle :: bundles).length - kMaximumBundles =
          bundles.length - kMaximumBundles + 1 := by
        rw [List.length_cons] at h ⊢
        omega
      rw [ih, hlen, List.take_succ_cons, List.map_cons]
      by_cases hp : p = bundle.path
      · simp [hp]
      · rw [set_of_ne hp]
        simp [hp]
    · rename_i h
      have hlen : (bundle :: bundles).length - kMaximumBundles = 0 := by omega
      rw [hlen]
      simp

/-- Nothing in the tree has a path that the call would use for this id. -/
structure Fresh (tree : FileTree) (id : Bytes) : Prop where
  staging : ∀ p, stagingPath id <+: p → tree p = none
  archive : tree (archivePath id) = none

variable (env : BundleEnvironment) (metrics : SystemMetrics) (bundle : DiagnosticBundleInfo)

def registered (s : DiagnosticCollector) (id contents : Bytes) : CreateResult :=
  let info : DiagnosticBundleInfo := ⟨id, archiveName id, contents.length, env.timestamp⟩
  let kept := removeOldBundles (s.bundles ++ [⟨info, archivePath id⟩])
    (s.tree.set (archivePath id) (some (.file contents)))
  ⟨{ s with bundles := kept.1, tree := kept.2 }, info, .ok ()⟩

theorem registerArchive_cases {s : DiagnosticCollector} {id : Bytes} (hid : Fresh s.tree id)
    (contents : Bytes) :
    let tree := s.tree.set (archivePath id) (some (.file contents))
    (∃ error, registerArchive env id tree bundle s = ⟨s, bundle, .error error⟩) ∨
    registerArchive env id tree bundle s = registered env s id contents := by
  intro tree
  have hat : tree (archivePath id) = some (.file contents) := set_self ..
  unfold registerArchive
  rw [hat]
  cases env.fileSizeFails with
  | true =>
    refine .inl ⟨ascii "failed to determine diagnostic archive size", ?_⟩
    simp only [tree, set_set, set_eq_self hid.archive]
  | false => exact .inr rfl

theorem packBundle_cases {s : DiagnosticCollector} {id : Bytes} (hid : Fresh s.tree id) :
    let tree := s.tree.set (stagingPath id) (some .directory)
    (∃ error, packBundle env metrics id tree bundle s = ⟨s, bundle, .error error⟩) ∨
    ∃ contents, packBundle env metrics id tree bundle s = registered env s id contents := by
  intro tree
  set staging := stagingPath id with hstaging
  set st := collect env s.logCollector metrics staging ⟨tree, none, []⟩ with hst
  set st' := st.andThen (createTarGzip env (archivePath id)) with hst'
  have hagrees : AgreesOutside staging s.tree st.tree :=
    (AgreesOutside.set List.prefix_rfl s.tree _).trans (collect_agrees ⟨tree, none, []⟩)
  have hremoved : st.tree.removeAll staging = s.tree := hagrees.removeAll_eq hid.staging
  have hremoved' (node : Option Node) :
      (st.tree.set (archivePath id) node).removeAll staging = s.tree.set (archivePath id) node := by
    rw [removeAll_set (stagingPath_not_prefix_archivePath id id), hremoved]
  unfold packBundle
  simp only [← hstaging, ← hst, ← hst']
  obtain ⟨herror, htree⟩ | ⟨herror, contents, htree⟩ :=
    createTarGzip_cases env (archivePath id) st
  · left
    obtain ⟨error, he⟩ := Option.ne_none_iff_exists'.mp herror
    refine ⟨error, ?_⟩
    rw [← hst'] at he htree
    rw [he]
    obtain htree | ⟨node, htree⟩ := htree
    · simp only [htree, hremoved, set_eq_self hid.archive]
    · simp only [htree, hremoved', set_set, set_eq_self hid.archive]
  · rw [← hst'] at herror htree
    rw [herror, htree, hremoved']
    obtain hfails | hregistered := registerArchive_cases env bundle hid contents
    · exact .inl hfails
    · exact .inr ⟨contents, hregistered⟩

/-- What one call can do: fail before it has an id, fail having changed nothing but the counter,
or register the archive it has made. -/
theorem createBundle_cases {s : DiagnosticCollector}
    (hid : Fresh s.tree (bundleId env.timestamp s.pid (s.sequence + 1))) :
    (∃ error, prepareRoot env = .error error ∧
      createBundle env metrics bundle s = ⟨s, bundle, .error error⟩) ∨
    (prepareRoot env = .ok () ∧ ∃ error, createBundle env metrics bundle s =
      ⟨{ s with sequence := s.sequence + 1 }, bundle, .error error⟩) ∨
    (prepareRoot env = .ok () ∧ ∃ contents, createBundle env metrics bundle s =
      registered env { s with sequence := s.sequence + 1 }
        (bundleId env.timestamp s.pid (s.sequence + 1)) contents) := by
  unfold createBundle
  cases hroot : prepareRoot env with
  | error error => exact .inl ⟨error, rfl, rfl⟩
  | ok root =>
    right
    have hnone := hid.staging _ List.prefix_rfl
    simp only [true_and]
    generalize bundleId env.timestamp s.pid (s.sequence + 1) = id at hid hnone ⊢
    rw [hnone]
    cases env.createStaging with
    | some message => exact .inl ⟨_, rfl⟩
    | none =>
      cases env.secureStaging with
      | some message =>
        have hremoved :=
          (AgreesOutside.set List.prefix_rfl s.tree (some .directory)).removeAll_eq hid.staging
        simp only [hremoved]
        exact .inl ⟨_, rfl⟩
      | none =>
        have hid' : Fresh { s with sequence := s.sequence + 1 }.tree id := hid
        exact packBundle_cases env metrics bundle hid'

end EdgeScope.DiagnosticCollector
