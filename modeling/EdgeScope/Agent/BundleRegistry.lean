import EdgeScope.Agent.CreateBundle

/-!
# The bundle registry over whole runs

The history of a collector is kept beside it: the ids its calls have formed, and the archives
the successful ones have returned, as they left them. After every run the registry, the
directory and the lookup agree with the five newest entries of the history.
-/

namespace EdgeScope.DiagnosticCollector
open Text FileTree

/-- A call of `CreateBundle`: what its environment does, and its arguments. -/
structure BundleCall where
  env : BundleEnvironment
  metrics : SystemMetrics
  bundle : DiagnosticBundleInfo

structure Created where
  stored : StoredBundle
  contents : Bytes

structure Ledger where
  collector : DiagnosticCollector
  formed : List Bytes
  created : List Created

def contentsAt (tree : FileTree) (path : Path) : Bytes :=
  match tree path with
  | some (.file contents) => contents
  | _ => []

def BundleCall.result (call : BundleCall) (s : DiagnosticCollector) : CreateResult :=
  createBundle call.env call.metrics call.bundle s

/-- The id a call forms, once it has the root directory. -/
def BundleCall.formed (call : BundleCall) (s : DiagnosticCollector) : List Bytes :=
  match prepareRoot call.env with
  | .error _ => []
  | .ok () => [bundleId call.env.timestamp s.pid (s.sequence + 1)]

/-- What a successful call returns, with the archive it leaves. -/
def CreateResult.created (result : CreateResult) : List Created :=
  match result.outcome with
  | .error _ => []
  | .ok () =>
    let path : Path := [result.bundle.filename]
    [⟨⟨result.bundle, path⟩, contentsAt result.collector.tree path⟩]

namespace Ledger

def start (pid : ℕ) (logCollector : LogCollector) : Ledger :=
  ⟨DiagnosticCollector.create pid logCollector, [], []⟩

def step (l : Ledger) (call : BundleCall) : Ledger :=
  let result := call.result l.collector
  ⟨result.collector, l.formed ++ call.formed l.collector, l.created ++ result.created⟩

def newest (l : Ledger) : List Created := l.created.rtake kMaximumBundles

def Holds (tree : FileTree) (entries : List Created) : Prop :=
  ∀ p node, tree p = some node ↔ ∃ c ∈ entries, c.stored.path = p ∧ .file c.contents = node

theorem nodup_paths {entries : List Created} (hids : (entries.map (·.stored.info.id)).Nodup)
    (hpaths : ∀ c ∈ entries, c.stored.path = archivePath c.stored.info.id) :
    (entries.map (·.stored.path)).Nodup := by
  have hmap : entries.map (·.stored.path) = (entries.map (·.stored.info.id)).map archivePath := by
    rw [List.map_map]
    exact List.map_congr_left hpaths
  rw [hmap]
  exact hids.map archivePath_injective

structure Sound (l : Ledger) : Prop where
  bundles : l.collector.bundles = l.newest.map Created.stored
  disk : Holds l.collector.tree l.newest
  formed : ∀ id ∈ l.formed, ∃ t n, n ≤ l.collector.sequence ∧ id = bundleId t l.collector.pid n
  distinct : l.formed.Nodup
  returned : (l.created.map (·.stored.info.id)).Sublist l.formed
  paths : ∀ c ∈ l.created, c.stored.path = archivePath c.stored.info.id
  sizes : ∀ c ∈ l.created, c.stored.info.sizeBytes = c.contents.length

theorem sound_start (pid : ℕ) (logCollector : LogCollector) : (start pid logCollector).Sound where
  bundles := rfl
  disk p node := by simp [start, newest, DiagnosticCollector.create, FileTree.empty, List.rtake]
  formed id h := by simp [start] at h
  distinct := List.nodup_nil
  returned := List.Sublist.slnil
  paths c h := by simp [start] at h
  sizes c h := by simp [start] at h

namespace Sound

variable {l : Ledger}

theorem ids_nodup (h : l.Sound) : (l.created.map (·.stored.info.id)).Nodup :=
  h.distinct.sublist h.returned

/-- The counter has not formed the next id yet. -/
theorem next_id_new (h : l.Sound) (t : ℕ) :
    bundleId t l.collector.pid (l.collector.sequence + 1) ∉ l.formed := by
  intro hmem
  obtain ⟨t', n, hn, hid⟩ := h.formed _ hmem
  have := bundleId_sequence hid
  omega

theorem distinct_append (h : l.Sound) (t : ℕ) :
    (l.formed ++ [bundleId t l.collector.pid (l.collector.sequence + 1)]).Nodup :=
  List.Nodup.append h.distinct (List.nodup_singleton _) (by simpa using h.next_id_new t)

theorem formed_append (h : l.Sound) (t : ℕ) :
    ∀ id ∈ l.formed ++ [bundleId t l.collector.pid (l.collector.sequence + 1)],
      ∃ t n, n ≤ l.collector.sequence + 1 ∧ id = bundleId t l.collector.pid n := by
  intro id hid
  obtain hid | hid := List.mem_append.mp hid
  · obtain ⟨t', n, hn, hid⟩ := h.formed id hid
    exact ⟨t', n, Nat.le_succ_of_le hn, hid⟩
  · exact ⟨t, l.collector.sequence + 1, le_rfl, List.mem_singleton.mp hid⟩

theorem fresh (h : l.Sound) (t : ℕ) :
    Fresh l.collector.tree (bundleId t l.collector.pid (l.collector.sequence + 1)) where
  staging p hp := by
    refine Option.eq_none_iff_forall_not_mem.mpr fun node hnode => ?_
    obtain ⟨c, hc, rfl, -⟩ := (h.disk p node).mp hnode
    rw [h.paths c (mem_of_mem_rtake hc)] at hp
    exact stagingPath_not_prefix_archivePath _ _ hp
  archive := by
    refine Option.eq_none_iff_forall_not_mem.mpr fun node hnode => ?_
    obtain ⟨c, hc, hpath, -⟩ := (h.disk _ node).mp hnode
    have hcreated := mem_of_mem_rtake hc
    rw [h.paths c hcreated] at hpath
    refine h.next_id_new t ?_
    rw [← archivePath_injective hpath]
    exact h.returned.subset (List.mem_map_of_mem hcreated)

end Sound
end Ledger

/-- One more archive, and the removal of those beyond the newest five. -/
theorem Ledger.Holds.removeOldBundles {tree : FileTree} {entries : List Created} {c : Created}
    (h : Holds tree entries) (hnew : tree c.stored.path = none)
    (hnodup : ((entries ++ [c]).map (·.stored.path)).Nodup) :
    Holds (removeOldBundles ((entries ++ [c]).map Created.stored)
      (tree.set c.stored.path (some (.file c.contents)))).2
      ((entries ++ [c]).rtake kMaximumBundles) := by
  intro p node
  have hset : tree.set c.stored.path (some (.file c.contents)) p = some node ↔
      ∃ e ∈ entries ++ [c], e.stored.path = p ∧ .file e.contents = node := by
    simp only [List.mem_append, List.mem_singleton, or_and_right, exists_or, exists_eq_left]
    rw [← h p node]
    by_cases hp : p = c.stored.path
    · rw [hp, set_self, hnew]
      simp
    · rw [set_of_ne hp]
      simp [Ne.symm hp]
  have hmem (e : Created) : e ∈ (entries ++ [c]).rtake kMaximumBundles ↔ e ∈ entries ++ [c] ∧
      e.stored.path ∉ (((entries ++ [c]).map Created.stored).take
        (((entries ++ [c]).map Created.stored).length - kMaximumBundles)).map (·.path) := by
    rw [mem_rtake_iff (fun e : Created => e.stored.path) hnodup, List.length_map, ← List.map_take,
      List.map_map]
    rfl
  rw [removeOldBundles_snd]
  split
  · rename_i hp
    simp only [reduceCtorEq, false_iff]
    rintro ⟨e, he, rfl, -⟩
    exact ((hmem e).mp he).2 hp
  · rename_i hp
    rw [hset]
    constructor
    · rintro ⟨e, he, rfl, hnode⟩
      exact ⟨e, (hmem e).mpr ⟨he, hp⟩, rfl, hnode⟩
    · rintro ⟨e, he, hpath, hnode⟩
      exact ⟨e, ((hmem e).mp he).1, hpath, hnode⟩

namespace Ledger

def createdBy (call : BundleCall) (id contents : Bytes) : Created :=
  ⟨⟨⟨id, archiveName id, contents.length, call.env.timestamp⟩, archivePath id⟩, contents⟩

variable {l : Ledger}

theorem newest_append (l : Ledger) (c : Created) :
    (l.newest ++ [c]).rtake kMaximumBundles = (l.created ++ [c]).rtake kMaximumBundles :=
  rtake_rtake_append ..

theorem newest_concat (l : Ledger) (c : Created) :
    (l.created ++ [c]).rtake kMaximumBundles = l.created.rtake 4 ++ [c] :=
  List.rtake_concat_succ ..

theorem mem_newest_append (l : Ledger) (c : Created) :
    c ∈ (l.created ++ [c]).rtake kMaximumBundles := by
  rw [newest_concat]
  exact List.mem_append_right _ List.mem_cons_self

namespace Sound

/-- A call that fails has used its id. -/
theorem unregistered (h : l.Sound) (t : ℕ) :
    Sound ⟨{ l.collector with sequence := l.collector.sequence + 1 },
      l.formed ++ [bundleId t l.collector.pid (l.collector.sequence + 1)], l.created⟩ where
  bundles := h.bundles
  disk := h.disk
  formed := h.formed_append t
  distinct := h.distinct_append t
  returned := h.returned.trans (List.sublist_append_left ..)
  paths := h.paths
  sizes := h.sizes

theorem registered (h : l.Sound) (call : BundleCall) (contents : Bytes) :
    let s := l.collector
    let id := bundleId call.env.timestamp s.pid (s.sequence + 1)
    let result := DiagnosticCollector.registered call.env { s with sequence := s.sequence + 1 } id
      contents
    let c := createdBy call id contents
    Sound ⟨result.collector, l.formed ++ [id], l.created ++ [c]⟩ ∧ result.created = [c] := by
  intro s id result c
  have hbundles : s.bundles ++ [c.stored] = (l.newest ++ [c]).map Created.stored := by
    rw [h.bundles, List.map_append]
    rfl
  have hdistinct : (l.formed ++ [id]).Nodup := h.distinct_append _
  have hreturned : ((l.created ++ [c]).map (·.stored.info.id)).Sublist (l.formed ++ [id]) := by
    rw [List.map_append]
    exact h.returned.append (.refl _)
  have hpaths (e : Created) (he : e ∈ l.created ++ [c]) :
      e.stored.path = archivePath e.stored.info.id := by
    obtain he | he := List.mem_append.mp he
    · exact h.paths e he
    · rw [List.mem_singleton.mp he]
      rfl
  -- the ids formed so far are distinct, and so are the paths made of them
  have hnodup : ((l.newest ++ [c]).map (·.stored.path)).Nodup := by
    have hall := nodup_paths (hdistinct.sublist hreturned) hpaths
    exact hall.sublist (((rtake_sublist _ _).append (.refl _)).map _)
  have hdisk : Holds result.collector.tree ((l.created ++ [c]).rtake kMaximumBundles) := by
    have := Holds.removeOldBundles h.disk (h.fresh call.env.timestamp).archive hnodup
    rw [newest_append, ← hbundles] at this
    exact this
  refine ⟨⟨?_, hdisk, h.formed_append _, hdistinct, hreturned, hpaths, ?_⟩, ?_⟩
  · have hfst := removeOldBundles_fst (s.bundles ++ [c.stored])
      (s.tree.set (archivePath id) (some (.file contents)))
    rw [hbundles, map_rtake, newest_append] at hfst
    rw [← hbundles] at hfst
    exact hfst
  · intro e he
    obtain he | he := List.mem_append.mp he
    · exact h.sizes e he
    · rw [List.mem_singleton.mp he]
      rfl
  · have hat : result.collector.tree (archivePath id) = some (.file contents) :=
      (hdisk _ _).mpr ⟨c, mem_newest_append l c, rfl, rfl⟩
    have hcontents : contentsAt result.collector.tree (archivePath id) = contents := by
      rw [contentsAt, hat]
    have hcreated : result.created =
      [⟨⟨c.stored.info, archivePath id⟩, contentsAt result.collector.tree (archivePath id)⟩] := rfl
    rw [hcreated, hcontents]
    rfl

/-- A call keeps the history sound. One that fails leaves the registry, the directory and the
caller's bundle; another one returns the newest entry. -/
theorem step (h : l.Sound) (call : BundleCall) :
    (l.step call).Sound ∧
    ((∃ error n, call.result l.collector =
        ⟨{ l.collector with sequence := n }, call.bundle, .error error⟩ ∧
        (l.step call).created = l.created) ∨
      ∃ c, call.result l.collector = ⟨(l.step call).collector, c.stored.info, .ok ()⟩ ∧
        (l.step call).created = l.created ++ [c]) := by
  obtain ⟨error, hroot, hresult⟩ | ⟨hroot, error, hresult⟩ | ⟨hroot, contents, hresult⟩ :=
    createBundle_cases call.env call.metrics call.bundle (h.fresh call.env.timestamp)
  · have hstep : l.step call = l := by
      simp only [Ledger.step, BundleCall.result, BundleCall.formed, CreateResult.created, hresult,
        hroot, List.append_nil]
    rw [hstep]
    exact ⟨h, .inl ⟨error, l.collector.sequence, hresult, rfl⟩⟩
  · have hstep : l.step call = ⟨{ l.collector with sequence := l.collector.sequence + 1 },
        l.formed ++ [bundleId call.env.timestamp l.collector.pid (l.collector.sequence + 1)],
        l.created⟩ := by
      simp only [Ledger.step, BundleCall.result, BundleCall.formed, CreateResult.created, hresult,
        hroot, List.append_nil]
    rw [hstep]
    exact ⟨h.unregistered call.env.timestamp, .inl ⟨error, _, hresult, rfl⟩⟩
  · obtain ⟨hsound, hcreated⟩ := h.registered call contents
    have hstep : l.step call = ⟨(call.result l.collector).collector,
        l.formed ++ [bundleId call.env.timestamp l.collector.pid (l.collector.sequence + 1)],
        l.created ++ (call.result l.collector).created⟩ := by
      simp only [Ledger.step, BundleCall.formed, hroot]
    rw [hstep, BundleCall.result, hresult, hcreated]
    exact ⟨hsound, .inr ⟨_, rfl, rfl⟩⟩

theorem run (h : l.Sound) (calls : List BundleCall) : (calls.foldl Ledger.step l).Sound := by
  induction calls generalizing l with
  | nil => exact h
  | cons call calls ih => exact ih (h.step call).1

end Sound

/-- What the collector owes its callers, whatever was called before. -/
structure Registry (l : Ledger) : Prop where
  /-- The registry is the newest five of the bundles returned, in their order. -/
  newest : l.collector.bundles = (l.created.map Created.stored).rtake kMaximumBundles
  length : l.collector.bundles.length = min kMaximumBundles l.created.length
  /-- No id is formed twice, nor the path of an archive; those returned are among them. -/
  ids : l.formed.Nodup
  archives : (l.formed.map archivePath).Nodup
  returned : (l.created.map (·.stored.info.id)).Sublist l.formed
  paths : ∀ c ∈ l.created, c.stored.path = archivePath c.stored.info.id
  /-- The directory holds the archives of the registry as their calls left them, and nothing
  else. -/
  directory : ∀ p node, l.collector.tree p = some node ↔
    ∃ c ∈ l.created.rtake kMaximumBundles, c.stored.path = p ∧ .file c.contents = node
  sizes : ∀ c ∈ l.created, c.stored.info.sizeBytes = c.contents.length
  /-- A further call that fails changes nothing of this. -/
  failed : ∀ (call : BundleCall) (error : Bytes),
    let result := call.result l.collector
    result.outcome = .error error → result.bundle = call.bundle ∧
      result.collector.bundles = l.collector.bundles ∧ result.collector.tree = l.collector.tree
  lookup : ∀ id path size, getBundlePath l.collector id = .ok (path, size) ↔
    ∃ b ∈ l.collector.bundles, b.info.id = id ∧ b.path = path ∧ b.info.sizeBytes = size
  /-- An id is resolved until five further bundles have been returned. -/
  lifetime : ∀ before c after, l.created = before ++ c :: after →
    getBundlePath l.collector c.stored.info.id =
      if after.length < kMaximumBundles then .ok (c.stored.path, c.stored.info.sizeBytes)
      else .error (ascii "diagnostic bundle not found")

end Ledger

theorem getBundlePath_eq_ok_iff {s : DiagnosticCollector}
    (h : (s.bundles.map (·.info.id)).Nodup) (id : Bytes) (path : Path) (size : ℕ) :
    getBundlePath s id = .ok (path, size) ↔
      ∃ b ∈ s.bundles, b.info.id = id ∧ b.path = path ∧ b.info.sizeBytes = size := by
  unfold getBundlePath
  split
  · rename_i b hb
    have hmem := List.mem_of_find?_eq_some hb
    have hid : b.info.id = id := by simpa using List.find?_some hb
    simp only [Except.ok.injEq, Prod.mk.injEq]
    constructor
    · rintro ⟨hpath, hsize⟩
      exact ⟨b, hmem, hid, hpath, hsize⟩
    · rintro ⟨b', hmem', hid', hpath, hsize⟩
      rw [List.inj_on_of_nodup_map h hmem hmem' (hid.trans hid'.symm)]
      exact ⟨hpath, hsize⟩
  · rename_i hnone
    simp only [reduceCtorEq, false_iff]
    rintro ⟨b, hmem, hid, -⟩
    exact List.find?_eq_none.mp hnone b hmem (by simpa using hid)

theorem getBundlePath_eq_error {s : DiagnosticCollector} {id : Bytes}
    (h : ∀ b ∈ s.bundles, b.info.id ≠ id) :
    getBundlePath s id = .error (ascii "diagnostic bundle not found") := by
  have hnone : s.bundles.find? (fun bundle => bundle.info.id = id) = none := by
    simpa using h
  rw [getBundlePath, hnone]

namespace Ledger.Sound

variable {l : Ledger}

theorem bundles_nodup (h : l.Sound) : (l.collector.bundles.map (·.info.id)).Nodup := by
  rw [h.bundles, List.map_map]
  exact h.ids_nodup.sublist ((rtake_sublist ..).map _)

theorem lifetime (h : l.Sound) {before after : List Created} {c : Created}
    (hcreated : l.created = before ++ c :: after) :
    getBundlePath l.collector c.stored.info.id =
      if after.length < kMaximumBundles then .ok (c.stored.path, c.stored.info.sizeBytes)
      else .error (ascii "diagnostic bundle not found") := by
  split
  · rename_i hlength
    have hnewest : c ∈ l.newest := by
      rw [newest, hcreated]
      exact mem_rtake_append_cons hlength
    refine (getBundlePath_eq_ok_iff h.bundles_nodup ..).mpr ⟨c.stored, ?_, rfl, rfl, rfl⟩
    rw [h.bundles]
    exact List.mem_map_of_mem hnewest
  · rename_i hlength
    refine getBundlePath_eq_error fun b hb hid => ?_
    have hafter : l.newest = after.rtake kMaximumBundles := by
      rw [newest, hcreated, List.append_cons]
      exact rtake_append_of_le_length _ (Nat.le_of_not_lt hlength)
    rw [h.bundles, hafter] at hb
    obtain ⟨e, he, rfl⟩ := List.mem_map.mp hb
    have hids := h.ids_nodup
    rw [hcreated, List.map_append, List.map_cons] at hids
    have hnotMem := (List.nodup_cons.mp hids.of_append_right).1
    exact hnotMem (hid ▸ List.mem_map_of_mem (mem_of_mem_rtake he))

theorem registry (h : l.Sound) : l.Registry where
  newest := by rw [h.bundles, newest, map_rtake]
  length := by rw [h.bundles, newest, List.length_map, length_rtake]
  ids := h.distinct
  archives := h.distinct.map archivePath_injective
  returned := h.returned
  paths := h.paths
  directory := h.disk
  sizes := h.sizes
  failed call error := by
    intro result herror
    obtain ⟨_, _, hresult, -⟩ | ⟨c, hresult, -⟩ := (h.step call).2
    · simp only [result, hresult, and_self]
    · simp only [result, hresult, reduceCtorEq] at herror
  lookup := getBundlePath_eq_ok_iff h.bundles_nodup
  lifetime _ _ _ hcreated := h.lifetime hcreated

end Ledger.Sound

/-- Whatever the environment does in each of the calls, the registry is in order after them. The
directory is empty at first. -/
theorem createBundle_registry (pid : ℕ) (logCollector : LogCollector) (calls : List BundleCall) :
    (calls.foldl Ledger.step (Ledger.start pid logCollector)).Registry :=
  ((Ledger.sound_start pid logCollector).run calls).registry

theorem Ledger.Sound.sequence_run_le {l : Ledger} (h : l.Sound) (calls : List BundleCall) :
    (calls.foldl Ledger.step l).collector.sequence ≤ l.collector.sequence + calls.length := by
  induction calls generalizing l with
  | nil => exact le_rfl
  | cons call calls ih =>
    have hstep : (l.step call).collector.sequence ≤ l.collector.sequence + 1 := by
      show (createBundle call.env call.metrics call.bundle l.collector).collector.sequence ≤ _
      obtain ⟨error, -, hresult⟩ | ⟨-, error, hresult⟩ | ⟨-, contents, hresult⟩ :=
        createBundle_cases call.env call.metrics call.bundle (h.fresh call.env.timestamp)
      · rw [hresult]
        exact Nat.le_succ _
      · rw [hresult]
      · rw [hresult]
        rfl
    have hrest := ih (h.step call).1
    rw [List.foldl_cons, List.length_cons]
    omega

/-- The sequence number counts calls, so it stays in its word. -/
theorem sequence_lt (pid : ℕ) (logCollector : LogCollector) {calls : List BundleCall}
    (hlength : calls.length < wordSize) :
    (calls.foldl Ledger.step (Ledger.start pid logCollector)).collector.sequence < wordSize := by
  have hle := (Ledger.sound_start pid logCollector).sequence_run_le calls
  have hzero : (Ledger.start pid logCollector).collector.sequence = 0 := rfl
  omega

end EdgeScope.DiagnosticCollector
