import SandD.Snapshot.Capture

/-!
# Equal hashes

What it means that two walks give the same hash.

* `Agree`, `Intact.entryAt_agree`: under one hash two stores have the same tree;
* `SameWorkspace`, `same_of_hash`: **workspaces whose names and targets are UTF-8 are the same when
  their hashes are**, whatever stores they were put into;
* `SameOrder`, `exec_buildTree_sameOrder`: the walk when names come in the same order;
* `sameHash_iff`: **a directory gives the same hash in two orders if the recorded names come in the
  same order, and only then**.
-/

namespace Posix

/-- The same kind, with the same contents or target. -/
def Node.Like : Node → Node → Prop
  | .file data _ _, .file data' _ _ => data = data'
  | .dir .., .dir .. => True
  | .symlink t _, .symlink t' _ => t.bytes = t'.bytes
  | _, _ => False

end Posix

namespace SandD

open Posix ObjectStore SnapshotManager
open Fallible

variable {K : Kernel} {H : Blake3} {J : Serde} {root root₁ root₂ : Loc} {fs fs' fs₁ fs₂ : FS}
  {p : PathBuf} {r : Loc} {obj₁ obj₂ : String → Option Bytes} {hash : String}
  {es : List TreeEntry} {f : View}

/-! ### Two stores -/

/-- What is stored under a hash in both places is the same. -/
def Agree (obj₁ obj₂ : String → Option Bytes) : Prop :=
  ∀ x b b', obj₁ x = some b → obj₂ x = some b' → b = b'

theorem stored_hash (hs : Sound H root fs) {b : Bytes} (h : stored root fs hash = some b) :
    H.hash b = hash := by
  obtain ⟨k, rfl, hb⟩ := stored_eq_some.1 h
  exact hs.content k b hb

/-- Stores in order agree: there are no collisions. -/
theorem agree_stored (hH : H.Lawful) (hs₁ : Sound H root₁ fs₁) (hs₂ : Sound H root₂ fs₂) :
    Agree (stored root₁ fs₁) (stored root₂ fs₂) := fun _ _ _ hb hb' =>
  hH.injective ((stored_hash hs₁ hb).trans (stored_hash hs₂ hb').symm)

theorem Agree.symm (h : Agree obj₁ obj₂) : Agree obj₂ obj₁ :=
  fun x b b' hb hb' => (h x b' b hb' hb).symm

theorem Agree.entriesOf (h : Agree obj₁ obj₂) {es₁ es₂ : List TreeEntry}
    (h₁ : entriesOf J obj₁ hash = some es₁) (h₂ : entriesOf J obj₂ hash = some es₂) :
    es₁ = es₂ := by
  obtain ⟨b₁, hb₁, hd₁⟩ := bytes_of_entriesOf h₁
  obtain ⟨b₂, hb₂, hd₂⟩ := bytes_of_entriesOf h₂
  obtain rfl := h _ b₁ b₂ hb₁ hb₂
  exact Except.ok.inj (hd₁.symm.trans hd₂)

/-- Under one hash the same entries are recorded. -/
theorem Intact.entryAt_agree (ha : Agree obj₁ obj₂) (h₁ : Intact J obj₁ hash)
    (h₂ : Intact J obj₂ hash) {q : Loc} {e : TreeEntry} (hq : EntryAt J obj₁ hash q e) :
    EntryAt J obj₂ hash q e := by
  induction hq with
  | here hes he hn =>
    obtain ⟨hes', -⟩ := h₂
    obtain rfl := ha.entriesOf hes hes'
    exact .here hes' he hn
  | deeper hes he hn ht _ ih =>
    obtain ⟨hes₁, -, -, -, -, tree₁⟩ := h₁
    obtain ⟨hes₂, -, -, -, -, tree₂⟩ := h₂
    cases hes.symm.trans hes₁
    obtain rfl := ha.entriesOf hes₁ hes₂
    exact .deeper hes₂ he hn ht (ih (tree₁ _ he ht) (tree₂ _ he ht))

theorem Intact.treeAt_agree (ha : Agree obj₁ obj₂) (h₁ : Intact J obj₁ hash)
    (h₂ : Intact J obj₂ hash) {q : Loc} {x : String} (hx : TreeAt J obj₁ hash q x) :
    TreeAt J obj₂ hash q x :=
  hx.imp_right fun ⟨e, hq, ht, heq⟩ => ⟨e, h₁.entryAt_agree ha h₂ hq, ht, heq⟩

/-! ### The same workspace -/

/-- The same paths, kinds, contents and targets. -/
def SameWorkspace (f g : View) : Prop := ∀ q, q ≠ [] → Option.Rel Node.Like (f q) (g q)

/-- The targets of all links are UTF-8. -/
def TargetsUtf8 (f : View) : Prop :=
  ∀ q t m, f q = some (.symlink t m) → (fromUtf8 t.bytes).isSome

/-- Nothing but files, directories and links. -/
def Ordinary (f : View) : Prop := ∀ q m t, f q ≠ some (.special m t)

theorem utf8_lossy {b : Bytes} (h : (fromUtf8 b).isSome) : utf8 (toStringLossy b) = b := by
  obtain ⟨s, hs⟩ := Option.isSome_iff_exists.1 h
  rw [toStringLossy, hs]
  exact utf8_of_fromUtf8 hs

/-- Nodes of which the same is recorded. -/
theorem TreeEntry.Of.like {e : TreeEntry} {nd₁ nd₂ : Node} (ha : Agree obj₁ obj₂)
    (h₁ : e.Of obj₁ nd₁) (h₂ : e.Of obj₂ nd₂)
    (hutf₁ : ∀ t m, nd₁ = .symlink t m → (fromUtf8 t.bytes).isSome)
    (hutf₂ : ∀ t m, nd₂ = .symlink t m → (fromUtf8 t.bytes).isSome) : nd₁.Like nd₂ := by
  cases nd₁ <;> cases nd₂
  case file.file => exact ha _ _ _ h₁.2.1 h₂.2.1
  case dir.dir => trivial
  case symlink.symlink t₁ m₁ t₂ m₂ =>
    have h := ha _ _ _ h₁.2 h₂.2
    rwa [utf8_lossy (hutf₁ t₁ m₁ rfl), utf8_lossy (hutf₂ t₂ m₂ rfl)] at h
  -- the kinds differ
  all_goals
    first
    | exact h₁.elim
    | exact h₂.elim
    | skip
  case file.dir => cases h₁.1.symm.trans h₂.1
  case dir.file => cases h₂.1.symm.trans h₁.1
  case file.symlink =>
    have h := h₂.1
    rw [h₁.1] at h
    cases h
  case symlink.file =>
    have h := h₁.1
    rw [h₂.1] at h
    cases h
  case dir.symlink =>
    have h := h₂.1
    rw [h₁.1] at h
    cases h
  case symlink.dir =>
    have h := h₁.1
    rw [h₂.1] at h
    cases h

/-- What one tree is captured from is the same. -/
theorem Captures.same {g : View} (ha : Agree obj₁ obj₂) (h₁ : Captures J obj₁ hash f)
    (h₂ : Captures J obj₂ hash g) (hi₁ : Intact J obj₁ hash) (hi₂ : Intact J obj₂ hash)
    (hf : Ordinary f) (hg : Ordinary g) (hf' : TargetsUtf8 f) (hg' : TargetsUtf8 g) :
    SameWorkspace f g := by
  intro q hq
  have hpair : ∀ (e : TreeEntry) nd₁ nd₂, e.Of obj₁ nd₁ → e.Of obj₂ nd₂ →
      f q = some nd₁ → g q = some nd₂ → Option.Rel Node.Like (f q) (g q) := by
    intro e nd₁ nd₂ hof₁ hof₂ hnd₁ hnd₂
    rw [hnd₁, hnd₂]
    refine .some (hof₁.like ha hof₂ ?_ ?_)
    · rintro t m rfl
      exact hf' q t m hnd₁
    · rintro t m rfl
      exact hg' q t m hnd₂
  cases hnd₁ : f q with
  | some nd₁ =>
    obtain ⟨e, he⟩ := h₁.all q nd₁ hq hnd₁ fun m t heq => hf q m t (heq ▸ hnd₁)
    obtain ⟨nd, hnd, hof₁⟩ := h₁.each q e he
    obtain ⟨nd₂, hnd₂, hof₂⟩ := h₂.each q e (hi₁.entryAt_agree ha hi₂ he)
    rw [← hnd₁]
    exact hpair e nd nd₂ hof₁ hof₂ hnd hnd₂
  | none =>
    cases hnd₂ : g q with
    | none => exact .none
    | some nd₂ =>
      obtain ⟨e, he⟩ := h₂.all q nd₂ hq hnd₂ fun m t heq => hg q m t (heq ▸ hnd₂)
      obtain ⟨nd, hnd, -⟩ := h₁.each q e (hi₂.entryAt_agree ha.symm hi₁ he)
      cases hnd₁.symm.trans hnd

/-- No name comes twice in a tree. -/
theorem Intact.distinct (h : Intact J obj₁ hash) (hes : entriesOf J obj₁ hash = some es) :
    (es.map (·.name)).Nodup := by
  obtain ⟨hes', -, distinct, -⟩ := h
  cases hes.symm.trans hes'
  exact distinct

/-- The names in each tree below a hash are distinct. -/
def DistinctNames (J : Serde) (obj : String → Option Bytes) (hash : String) : Prop :=
  ∀ q x es, TreeAt J obj hash q x → entriesOf J obj x = some es → (es.map (·.name)).Nodup

theorem Intact.distinctNames (h : Intact J obj₁ hash) : DistinctNames J obj₁ hash :=
  fun _ _ _ hx hes => (h.treeAt hx).distinct hes

/-- **Workspaces are not merged**, whatever stores they were put into, where no name and no target
is changed by the conversion to UTF-8. -/
theorem same_of_hash (hH : H.Lawful) (hJ : J.Lawful) {K₁ K₂ : Kernel} {p₁ p₂ : PathBuf}
    {r₁ r₂ : Loc} {reads₁ reads₂ : Loc → ℕ → ℕ} {fuel₁ fuel₂ c₁ c₂ z₁ z₂ : ℕ} {fs₁' fs₂' : FS}
    (hs₁ : Site H root₁ p₁ r₁ fs₁) (hs₂ : Site H root₂ p₂ r₂ fs₂)
    (hord₁ : Ordinary (viewAt fs₁ r₁)) (hord₂ : Ordinary (viewAt fs₂ r₂))
    (hutf : NamesUtf8 (viewAt fs₁ r₁) ∧ TargetsUtf8 (viewAt fs₁ r₁) ∧
      NamesUtf8 (viewAt fs₂ r₂) ∧ TargetsUtf8 (viewAt fs₂ r₂))
    (h₁ : exec K₁.handle ((managerAt root₁).buildTree H J reads₁ fuel₁ p₁) fs₁ =
      (.ok (hash, c₁, z₁), fs₁'))
    (h₂ : exec K₂.handle ((managerAt root₂).buildTree H J reads₂ fuel₂ p₂) fs₂ =
      (.ok (hash, c₂, z₂), fs₂')) :
    SameWorkspace (viewAt fs₁ r₁) (viewAt fs₂ r₂) ∧
      DistinctNames J (stored root₁ fs₁') hash ∧ DistinctNames J (stored root₂ fs₂') hash := by
  obtain ⟨hw₁, hi₁, hc₁⟩ := ok_buildTree hH hJ fuel₁ hs₁ hutf.1 h₁
  obtain ⟨hw₂, hi₂, hc₂⟩ := ok_buildTree hH hJ fuel₂ hs₂ hutf.2.2.1 h₂
  have ha := agree_stored hH hw₁.sound hw₂.sound
  exact ⟨hc₁.same ha hc₂ hi₁ hi₂ hord₁ hord₂ hutf.2.1 hutf.2.2.2, hi₁.distinctNames,
    hi₂.distinctNames⟩

/-! ### The order of names -/

/-- There is a directory on a path. -/
def DirOn (f : View) (q : Loc) : Prop := q = [] ∨ ∃ nd, f q = some nd ∧ nd.isDir = true

/-- Every directory is listed completely. -/
def ListsAll (f : View) (r : Loc) (order : Loc → List FileName) : Prop :=
  ∀ q, DirOn f q → Enumerates f q (order (r ++ q))

/-- In every directory the names that are recorded come in the same order. -/
def SameOrder (f : View) (r : Loc) (order₁ order₂ : Loc → List FileName) : Prop :=
  ∀ q, DirOn f q → recordedNames f q (order₁ (r ++ q)) = recordedNames f q (order₂ (r ++ q))

section Order

variable {order order₁ order₂ : Loc → List FileName} {n : FileName} {reads : Loc → ℕ → ℕ} {fuel : ℕ}

theorem DirOn.of_child (hn : fs.isDir (r ++ [n])) {q : Loc}
    (h : DirOn (viewAt fs (r ++ [n])) q) : DirOn (viewAt fs r) (n :: q) := by
  refine .inr ?_
  rcases h with rfl | ⟨nd, hnd, hdir⟩
  · obtain ⟨m, t, s, hl⟩ := FS.isDir_iff.1 hn
    exact ⟨_, hl, rfl⟩
  · rw [← child_viewAt] at hnd
    exact ⟨nd, hnd, hdir⟩

theorem ListsAll.child (h : ListsAll (viewAt fs r) r order) (hn : fs.isDir (r ++ [n])) :
    ListsAll (viewAt fs (r ++ [n])) (r ++ [n]) order := by
  intro q hq
  have hall := h (n :: q) (hq.of_child hn)
  rw [List.append_cons] at hall
  rw [← child_viewAt]
  exact hall

theorem SameOrder.child (h : SameOrder (viewAt fs r) r order₁ order₂) (hn : fs.isDir (r ++ [n])) :
    SameOrder (viewAt fs (r ++ [n])) (r ++ [n]) order₁ order₂ := by
  intro q hq
  have hsame := h (n :: q) (hq.of_child hn)
  rw [List.append_cons] at hsame
  rw [← child_viewAt]
  exact hsame

theorem ListsAll.names (h : ListsAll (viewAt fs r) r order) (hd : fs.isDir r) :
    arranged (order r) (fs.names r) = order r := by
  have henum := h [] (.inl rfl)
  rw [List.append_nil] at henum
  refine arranged_eq ((List.perm_ext_iff_of_nodup henum.1 (FS.nodup_names fs r)).2 fun n => ?_)
  rw [henum.2, FS.mem_names hd]
  rfl

/-- A directory is listed in the order that is given. -/
theorem exec_readDir_listing (hs : Site H root p r fs) (h : ListsAll (viewAt fs r) r order) :
    exec (K.listing order) (io (IoM.op (.readDir p))) fs = (.ok (order r), fs) := by
  have hres : fs.resolve true p = .ok r := hs.leads.self
  refine (exec_mapError ..).trans ?_
  rw [IoM.op, exec_perform, Kernel.listing_readDir hres, hs.leads.readDir_eq]
  show ((Except.ok (arranged (order r) (fs.names r))).mapError Error.io, fs) = _
  rw [h.names hs.leads.isDir]
  rfl

theorem exec_symlinkMetadata_listing (hs : Site H root p r fs) {nd : Node}
    (hl : fs.lookup (r ++ [n]) = some nd) :
    exec (K.listing order) (io (IoM.op (.symlinkMetadata (p ++ [.name n])))) fs =
      (.ok nd.metadata, fs) := by
  rw [exec_listing_op (o := .symlinkMetadata (p ++ [.name n])) nofun, exec_io, run_op,
    Kernel.handle, hs.leads.stat_entry (.inl rfl), hl]
  rfl

/-- One round of the loop does not depend on the orders if walking a sub-directory does not. -/
theorem exec_buildEntry_listing (hs : Site H root p r fs) (acc : Built)
    (hn : (fs.lookup (r ++ [n])).isSome)
    (hrec : fs.isDir (r ++ [n]) →
      exec (K.listing order₁) ((managerAt root).buildTree H J reads fuel (p ++ [.name n])) fs =
        exec (K.listing order₂) ((managerAt root).buildTree H J reads fuel (p ++ [.name n])) fs) :
    exec (K.listing order₁) ((managerAt root).buildEntry H reads fuel
        ((managerAt root).buildTree H J reads fuel) p acc n) fs =
      exec (K.listing order₂) ((managerAt root).buildEntry H reads fuel
        ((managerAt root).buildTree H J reads fuel) p acc n) fs := by
  obtain ⟨nd, hl⟩ := Option.isSome_iff_exists.1 hn
  have hjoin : p.join n.bytes = p ++ [.name n] := p.join_of_valid n.valid
  rw [buildEntry, hjoin, exec_bind_ok _ (exec_symlinkMetadata_listing hs hl),
    exec_bind_ok _ (exec_symlinkMetadata_listing hs hl)]
  cases nd with
  | dir m t size =>
    show exec (K.listing order₁) ((managerAt root).buildTree H J reads fuel (p ++ [.name n]) >>= _)
      fs = exec (K.listing order₂)
        ((managerAt root).buildTree H J reads fuel (p ++ [.name n]) >>= _) fs
    rw [exec_bind, exec_bind, hrec (FS.isDir_of_lookup hl)]
    rcases exec (K.listing order₂) ((managerAt root).buildTree H J reads fuel
      (p ++ [.name n])) fs with ⟨e | ⟨x, c, z⟩, s⟩ <;> rfl
  | file data m t =>
    have hissues : ∀ f : String → Built, Issues Unlisted
        ((managerAt root).store.putFile H reads fuel (p ++ [.name n]) >>= fun hash =>
          (pure (f hash) : Action Built)) := fun f =>
      issues_bind (unlisted_putFile _ _ _ _) fun _ => issues_pure _
    exact (exec_listing (hissues _) fs).trans (exec_listing (hissues _) fs).symm
  | symlink t m =>
    have hissues : ∀ f : Bytes → String → Bool → Built, Issues Unlisted (do
        let target ← io (IoM.op (.readLink (p ++ [.name n])))
        let hash ← (managerAt root).store.putBlob H (utf8 (toStringLossy target))
        let isDir ← targetIsDir (p ++ [.name n]) target
        return f target hash isDir : Action Built) := fun f =>
      issues_bind (issues_mapError (issues_op (unlisted_of_ne rfl))) fun _ =>
        issues_bind (unlisted_putBlob _ _) fun _ =>
          issues_bind (unlisted_targetIsDir _ _) fun _ => issues_pure _
    exact (exec_listing (hissues _) fs).trans (exec_listing (hissues _) fs).symm
  | special m t => rfl

/-- The loop passes over what is not recorded. -/
theorem exec_buildEntries_recorded (hH : H.Lawful) (hJ : J.Lawful) (names : List FileName) :
    ∀ (fs : FS) (acc : Built), Site H root p r fs →
      (∀ n ∈ names, (fs.lookup (r ++ [n])).isSome) →
      exec (K.listing order) ((managerAt root).buildEntries H reads fuel
          ((managerAt root).buildTree H J reads fuel) p names acc) fs =
        exec (K.listing order) ((managerAt root).buildEntries H reads fuel
          ((managerAt root).buildTree H J reads fuel) p (recordedNames (viewAt fs r) [] names) acc)
          fs := by
  induction names with
  | nil => exact fun _ _ _ _ => rfl
  | cons n names ih =>
    intro fs acc hs hnames
    have hn := hnames n List.mem_cons_self
    have hrest := fun m hm => hnames m (List.mem_cons_of_mem n hm)
    obtain ⟨nd, hl⟩ := Option.isSome_iff_exists.1 hn
    have hnd : viewAt fs r ([] ++ [n]) = some nd := hl
    by_cases hrec : recordable (some nd) = true
    · rw [recordedNames, List.filter_cons_of_pos (by rwa [hnd]), ← recordedNames]
      show exec (K.listing order) ((managerAt root).buildEntry H reads fuel _ p acc n >>= _) fs =
        exec (K.listing order) ((managerAt root).buildEntry H reads fuel _ p acc n >>= _) fs
      rw [exec_bind, exec_bind]
      rcases hentry : exec (K.listing order) ((managerAt root).buildEntry H reads fuel
        ((managerAt root).buildTree H J reads fuel) p acc n) fs with ⟨e | acc', s⟩
      · rfl
      · obtain ⟨hw, -⟩ := ok_buildEntry hH hs hn (fun result fs' hd hrun =>
          walked_buildTree hH hJ fuel (hs.child hd) hrun) hentry
        have hview := hs.view hw
        show exec (K.listing order)
          ((managerAt root).buildEntries H reads fuel _ p names acc') s = _
        rw [ih s acc' (hs.later hw) (fun m hm => by
          rw [show s.lookup (r ++ [m]) = fs.lookup (r ++ [m]) from congrFun hview [m]]
          exact hrest m hm), hview]
    · rw [recordedNames, List.filter_cons_of_neg (by rwa [hnd]), ← recordedNames,
        ← ih fs acc hs hrest]
      have hskip : exec (K.listing order) ((managerAt root).buildEntry H reads fuel
          ((managerAt root).buildTree H J reads fuel) p acc n) fs = (.ok acc, fs) := by
        have hjoin : p.join n.bytes = p ++ [.name n] := p.join_of_valid n.valid
        rw [buildEntry, hjoin, exec_bind_ok _ (exec_symlinkMetadata_listing hs hl)]
        cases nd with
        | special m t => rfl
        | _ => exact absurd rfl hrec
      exact exec_bind_ok _ hskip

/-- The loop does not depend on the orders if walking sub-directories does not. -/
theorem exec_buildEntries_listing (hH : H.Lawful) (hJ : J.Lawful) (names : List FileName) :
    ∀ (fs : FS) (acc : Built), Site H root p r fs →
      (∀ n ∈ names, (fs.lookup (r ++ [n])).isSome) →
      (∀ n s, viewAt s r = viewAt fs r → Site H root p r s → s.isDir (r ++ [n]) →
        exec (K.listing order₁) ((managerAt root).buildTree H J reads fuel (p ++ [.name n])) s =
          exec (K.listing order₂) ((managerAt root).buildTree H J reads fuel (p ++ [.name n])) s) →
      exec (K.listing order₁) ((managerAt root).buildEntries H reads fuel
          ((managerAt root).buildTree H J reads fuel) p names acc) fs =
        exec (K.listing order₂) ((managerAt root).buildEntries H reads fuel
          ((managerAt root).buildTree H J reads fuel) p names acc) fs := by
  induction names with
  | nil => exact fun _ _ _ _ _ => rfl
  | cons n names ih =>
    intro fs acc hs hnames hrec
    have hn := hnames n List.mem_cons_self
    show exec (K.listing order₁) ((managerAt root).buildEntry H reads fuel _ p acc n >>= _) fs =
      exec (K.listing order₂) ((managerAt root).buildEntry H reads fuel _ p acc n >>= _) fs
    rw [exec_bind, exec_bind, exec_buildEntry_listing hs acc hn (hrec n fs rfl hs)]
    rcases hentry : exec (K.listing order₂) ((managerAt root).buildEntry H reads fuel
      ((managerAt root).buildTree H J reads fuel) p acc n) fs with ⟨e | acc', s⟩
    · rfl
    · obtain ⟨hw, -⟩ := ok_buildEntry hH hs hn (fun result fs' hd hrun =>
        walked_buildTree hH hJ fuel (hs.child hd) hrun) hentry
      have hview := hs.view hw
      exact ih s acc' (hs.later hw) (fun m hm => by
        rw [show s.lookup (r ++ [m]) = fs.lookup (r ++ [m]) from congrFun hview [m]]
        exact hnames m (List.mem_cons_of_mem n hm)) fun m s' hs' => hrec m s' (hs'.trans hview)

/-- **The walk is the same when the recorded names come in the same order.** -/
theorem exec_buildTree_sameOrder (hH : H.Lawful) (hJ : J.Lawful) (fuel : ℕ) :
    ∀ {p : PathBuf} {r : Loc} {fs : FS}, Site H root p r fs → ListsAll (viewAt fs r) r order₁ →
      ListsAll (viewAt fs r) r order₂ → SameOrder (viewAt fs r) r order₁ order₂ →
      exec (K.listing order₁) ((managerAt root).buildTree H J reads fuel p) fs =
        exec (K.listing order₂) ((managerAt root).buildTree H J reads fuel p) fs := by
  induction fuel with
  | zero => exact fun _ _ _ _ => rfl
  | succ fuel ih =>
    intro p r fs hs h₁ h₂ hsame
    have hsub : ∀ n s, viewAt s r = viewAt fs r → Site H root p r s → s.isDir (r ++ [n]) →
        exec (K.listing order₁) ((managerAt root).buildTree H J reads fuel (p ++ [.name n])) s =
          exec (K.listing order₂)
            ((managerAt root).buildTree H J reads fuel (p ++ [.name n])) s := by
      intro n s hview hs' hn
      rw [← hview] at h₁ h₂ hsame
      exact ih (hs'.child hn) (h₁.child hn) (h₂.child hn) (hsame.child hn)
    have hmem : ∀ {order : Loc → List FileName}, ListsAll (viewAt fs r) r order →
        ∀ n ∈ order r, (fs.lookup (r ++ [n])).isSome := by
      intro order h n hn
      have henum := h [] (.inl rfl)
      rw [List.append_nil] at henum
      exact (henum.2 n).1 hn
    have hloop : exec (K.listing order₁) ((managerAt root).buildEntries H reads fuel
        ((managerAt root).buildTree H J reads fuel) p (order₁ r) ⟨[], 0, 0⟩) fs =
        exec (K.listing order₂) ((managerAt root).buildEntries H reads fuel
          ((managerAt root).buildTree H J reads fuel) p (order₂ r) ⟨[], 0, 0⟩) fs := by
      have hnames := hsame [] (.inl rfl)
      rw [List.append_nil] at hnames
      rw [exec_buildEntries_recorded hH hJ _ fs _ hs (hmem h₁),
        exec_buildEntries_recorded hH hJ _ fs _ hs (hmem h₂), hnames]
      exact exec_buildEntries_listing hH hJ _ fs _ hs
        (fun n hn => hmem h₂ n (List.mem_of_mem_filter hn)) hsub
    rw [buildTree, exec_bind_ok _ (exec_readDir_listing hs h₁),
      exec_bind_ok _ (exec_readDir_listing hs h₂), exec_bind, exec_bind, hloop]
    rcases exec (K.listing order₂) ((managerAt root).buildEntries H reads fuel
      ((managerAt root).buildTree H J reads fuel) p (order₂ r) ⟨[], 0, 0⟩) fs with ⟨e | built, s⟩
    · rfl
    · have hissues : Issues Unlisted (do
          let treeJson ← Fallible.ofExcept (J.encodeTree built.entries)
          let treeHash ← (managerAt root).store.putBlob H treeJson
          return (treeHash, built.fileCount, built.totalSize) : Action (String × ℕ × ℕ)) :=
        issues_bind (issues_ofExcept _) fun _ =>
          issues_bind (unlisted_putBlob _ _) fun _ => issues_pure _
      exact (exec_listing hissues s).trans (exec_listing hissues s).symm

/-- For every directory there is a tree. -/
theorem Filed.treeAt {obj : String → Option Bytes} (h : Filed J obj order r hash f) {q : Loc}
    (hq : DirOn f q) : ∃ x es, TreeAt J obj hash q x ∧ entriesOf J obj x = some es := by
  have htree : ∃ x, TreeAt J obj hash q x := by
    rcases eq_or_ne q [] with rfl | hne
    · exact ⟨hash, .inl ⟨rfl, rfl⟩⟩
    · obtain ⟨nd, hnd, hdir⟩ := hq.resolve_left hne
      obtain ⟨e, he⟩ := h.captures.all q nd hne hnd (by
        rintro m t rfl
        cases hdir)
      obtain ⟨nd', hnd', hof⟩ := h.captures.each q e he
      obtain rfl := Option.some_inj.1 (hnd.symm.trans hnd')
      refine ⟨e.hash, .inr ⟨e, he, ?_, rfl⟩⟩
      cases nd <;> first | exact hof.1 | cases hdir
  obtain ⟨x, hx⟩ := htree
  obtain ⟨hes, -⟩ := h.intact.treeAt hx
  exact ⟨x, _, hx, hes⟩

/-- Names are told apart by what they are recorded as. -/
theorem names_eq_of_lossy {q : Loc} {l₁ l₂ : List FileName} (hutf : NamesUtf8 f)
    (h₁ : ∀ n ∈ l₁, (f (q ++ [n])).isSome) (h₂ : ∀ n ∈ l₂, (f (q ++ [n])).isSome)
    (h : (l₁.map fun n => toStringLossy n.bytes) = l₂.map fun n => toStringLossy n.bytes) :
    l₁ = l₂ := by
  have hback : ∀ l : List FileName, (∀ n ∈ l, (f (q ++ [n])).isSome) →
      (l.map fun n => toStringLossy n.bytes).map utf8 = l.map FileName.bytes := by
    intro l hl
    rw [List.map_map]
    exact List.map_congr_left fun n hn => utf8_lossy (hutf q n (hl n hn))
  have hbytes : l₁.map FileName.bytes = l₂.map FileName.bytes := by
    rw [← hback l₁ h₁, ← hback l₂ h₂, h]
  exact List.map_injective_iff.2 (fun _ _ heq => FileName.ext heq) hbytes

/-- **A directory gives the same hash in two orders if the recorded names of every directory in it
come in the same order, and only then**; the number of files and their size are the same in any
case.  Only where names are not UTF-8 may two of them change places unnoticed. -/
theorem sameHash_iff (hH : H.Lawful) (hJ : J.Lawful) (hs : Site H root p r fs)
    (hl₁ : ListsAll (viewAt fs r) r order₁) (hl₂ : ListsAll (viewAt fs r) r order₂)
    {x₁ x₂ : String} {c₁ c₂ z₁ z₂ : ℕ}
    (h₁ : exec (K.listing order₁) ((managerAt root).buildTree H J reads fuel p) fs =
      (.ok (x₁, c₁, z₁), fs₁))
    (h₂ : exec (K.listing order₂) ((managerAt root).buildTree H J reads fuel p) fs =
      (.ok (x₂, c₂, z₂), fs₂)) :
    (c₁ = c₂ ∧ z₁ = z₂) ∧ (SameOrder (viewAt fs r) r order₁ order₂ → x₁ = x₂) ∧
      (NamesUtf8 (viewAt fs r) → x₁ = x₂ → SameOrder (viewAt fs r) r order₁ order₂) := by
  have hwalk₁ := walked_buildTree hH hJ fuel hs h₁
  have hwalk₂ := walked_buildTree hH hJ fuel hs h₂
  refine ⟨?_, fun hsame => ?_, fun hutf heq q hq => ?_⟩
  · obtain ⟨c, z, htotals, (rfl : c₁ = _), (rfl : z₁ = _)⟩ := hwalk₁.counts
    obtain ⟨c', z', htotals', (rfl : c₂ = _), (rfl : z₂ = _)⟩ := hwalk₂.counts
    obtain ⟨rfl, rfl⟩ := htotals.unique htotals'
    exact ⟨rfl, rfl⟩
  · rw [exec_buildTree_sameOrder hH hJ fuel hs hl₁ hl₂ hsame, h₂] at h₁
    cases h₁
    rfl
  · subst heq
    have hf₁ := hwalk₁.filed hutf
    have hf₂ := hwalk₂.filed hutf
    have ha := agree_stored hH hwalk₁.within.sound hwalk₂.within.sound
    obtain ⟨x, es₁, hx, hes₁⟩ := hf₁.treeAt hq
    have hx₂ := hf₁.intact.treeAt_agree ha hf₂.intact hx
    obtain ⟨hes₂, -⟩ := hf₂.intact.treeAt hx₂
    obtain rfl := ha.entriesOf hes₁ hes₂
    have hnames := (hf₁.inOrder q x _ hx hes₁ (hl₁ q hq)).symm.trans
      (hf₂.inOrder q x _ hx₂ hes₂ (hl₂ q hq))
    exact names_eq_of_lossy hutf
      (fun n hn => ((hl₁ q hq).2 n).1 (List.mem_of_mem_filter hn))
      (fun n hn => ((hl₂ q hq).2 n).1 (List.mem_of_mem_filter hn)) hnames

end Order

section Sample

/-- The entry of a file of one byte. -/
def sampleEntry (name hash : String) : WireEntry := ⟨name, 0o100644, .blob, hash, 1, 0⟩

/-- The hashes of `a` and `b`. -/
def letterHashes : String × String :=
  ("17762fddd969a453925d65717ac3eea21320b66b54342fde15128d6caf21215f",
    "10e5cf3d3c8a4f9f3468c8cc58eea84892a22fdadbc1acb22410190044c1d553")

/-- `{"name":"f","mode":33188,"entry_type":"blob","hash":"1776…","size":1,"modified":0}`. -/
def entryJsonF : Bytes :=
  [123, 34, 110, 97, 109, 101, 34, 58, 34, 102, 34, 44, 34, 109, 111, 100, 101, 34, 58, 51, 51,
   49, 56, 56, 44, 34, 101, 110, 116, 114, 121, 95, 116, 121, 112, 101, 34, 58, 34, 98, 108, 111,
   98, 34, 44, 34, 104, 97, 115, 104, 34, 58, 34, 49, 55, 55, 54, 50, 102, 100, 100, 100, 57, 54,
   57, 97, 52, 53, 51, 57, 50, 53, 100, 54, 53, 55, 49, 55, 97, 99, 51, 101, 101, 97, 50, 49, 51,
   50, 48, 98, 54, 54, 98, 53, 52, 51, 52, 50, 102, 100, 101, 49, 53, 49, 50, 56, 100, 54, 99,
   97, 102, 50, 49, 50, 49, 53, 102, 34, 44, 34, 115, 105, 122, 101, 34, 58, 49, 44, 34, 109,
   111, 100, 105, 102, 105, 101, 100, 34, 58, 48, 125]

/-- `{"name":"g","mode":33188,"entry_type":"blob","hash":"10e5…","size":1,"modified":0}`. -/
def entryJsonG : Bytes :=
  [123, 34, 110, 97, 109, 101, 34, 58, 34, 103, 34, 44, 34, 109, 111, 100, 101, 34, 58, 51, 51,
   49, 56, 56, 44, 34, 101, 110, 116, 114, 121, 95, 116, 121, 112, 101, 34, 58, 34, 98, 108, 111,
   98, 34, 44, 34, 104, 97, 115, 104, 34, 58, 34, 49, 48, 101, 53, 99, 102, 51, 100, 51, 99, 56,
   97, 52, 102, 57, 102, 51, 52, 54, 56, 99, 56, 99, 99, 53, 56, 101, 101, 97, 56, 52, 56, 57,
   50, 97, 50, 50, 102, 100, 97, 100, 98, 99, 49, 97, 99, 98, 50, 50, 52, 49, 48, 49, 57, 48, 48,
   52, 52, 99, 49, 100, 53, 53, 51, 34, 44, 34, 115, 105, 122, 101, 34, 58, 49, 44, 34, 109, 111,
   100, 105, 102, 105, 101, 100, 34, 58, 48, 125]

/-- The same as the first, under the name that stands for one that is not UTF-8. -/
def entryJsonOdd : Bytes :=
  [123, 34, 110, 97, 109, 101, 34, 58, 34, 239, 191, 189, 34, 44, 34, 109, 111, 100, 101, 34, 58,
   51, 51, 49, 56, 56, 44, 34, 101, 110, 116, 114, 121, 95, 116, 121, 112, 101, 34, 58, 34, 98,
   108, 111, 98, 34, 44, 34, 104, 97, 115, 104, 34, 58, 34, 49, 55, 55, 54, 50, 102, 100, 100,
   100, 57, 54, 57, 97, 52, 53, 51, 57, 50, 53, 100, 54, 53, 55, 49, 55, 97, 99, 51, 101, 101,
   97, 50, 49, 51, 50, 48, 98, 54, 54, 98, 53, 52, 51, 52, 50, 102, 100, 101, 49, 53, 49, 50, 56,
   100, 54, 99, 97, 102, 50, 49, 50, 49, 53, 102, 34, 44, 34, 115, 105, 122, 101, 34, 58, 49, 44,
   34, 109, 111, 100, 105, 102, 105, 101, 100, 34, 58, 48, 125]

/-- The JSON of a tree, of that of its entries: `{"entries":[…]}`. -/
def sampleTreeOf (entries : Bytes) : Bytes :=
  [123, 34, 101, 110, 116, 114, 105, 101, 115, 34, 58, 91] ++ entries ++ [93, 125]

/-- Trees with the files `f` and `g` in two orders, and with a file whose name is not UTF-8. -/
def orderTrees : List (List WireEntry × Bytes) :=
  let f := sampleEntry "f" letterHashes.1
  let g := sampleEntry "g" letterHashes.2
  [([f, g], sampleTreeOf (entryJsonF ++ [44] ++ entryJsonG)),
    ([g, f], sampleTreeOf (entryJsonG ++ [44] ++ entryJsonF)),
    ([sampleEntry "\uFFFD" letterHashes.1], sampleTreeOf entryJsonOdd)]

def orderJson : JsonTable where
  trees := orderTrees
  snapshots := []
  distinctTrees := by decide +kernel
  distinctSnapshots := by decide
  start := by decide +kernel

/-- The hashes of these trees. -/
def treeHashes : List String :=
  ["b65362cec8f4c7214e611d6eb36ab4498a24781d8faf87f52973f88e6ef4fd3c",
    "63f8efb4baaa9377f316835cc6570ecb65a601ca9ee5f770703cad73a3203027",
    "242fec809f17157be45e4398dc376e9ae28936055c2ff4d409904a6044250bc9"]

def orderHashes : HashTable where
  rows := [(utf8 "a", letterHashes.1), (utf8 "b", letterHashes.2)] ++
    (orderTrees.map Prod.snd).zip treeHashes
  distinct := by decide +kernel
  long := by decide +kernel
  hex := hex_of_all (by decide +kernel)
  start := by decide +kernel

/-- The file names `f` and `g`. -/
def sampleNames : FileName × FileName := (sampleName, ⟨utf8 "g", by decide⟩)

/-- `/w` with two files. -/
def samplePair : FS := sampleStore.insert (sampleDir ++ [sampleNames.2]) (.file (utf8 "b") 0o644 0)

/-- `/w` is walked, and listed in an order that is given. -/
@[irreducible] def sampleWalk (names : List FileName) : Except Error (String × ℕ × ℕ) × FS :=
  exec (sampleKernel.listing fun _ => names) ((managerAt sampleRoot).buildTree
    (Blake3.ofTable orderHashes) (Serde.ofTable orderJson) (fun _ _ => 1) 3
    (Loc.toPath sampleDir)) samplePair

/-- The walk of `/w` in an order. -/
theorem exec_sampleWalk {names : List FileName} {r : Except Error (String × ℕ × ℕ)}
    (h : (sampleWalk names).1 = r) :
    exec (sampleKernel.listing fun _ => names) ((managerAt sampleRoot).buildTree
      (Blake3.ofTable orderHashes) (Serde.ofTable orderJson) (fun _ _ => 1) 3
      (Loc.toPath sampleDir)) samplePair = (r, (sampleWalk names).2) := by
  subst h
  unfold sampleWalk
  exact Prod.mk.eta.symm

theorem sampleWalk_results :
    (sampleWalk [sampleNames.1, sampleNames.2]).1 = .ok (treeHashes[0], 2, 2) ∧
      (sampleWalk [sampleNames.2, sampleNames.1]).1 = .ok (treeHashes[1], 2, 2) := by
  decide +kernel

/-- There are only files in `/w`. -/
theorem lookup_samplePair {q : Loc} {nd : Node} (hq : q ≠ [])
    (hl : viewAt samplePair sampleDir q = some nd) : ∃ data m t, nd = .file data m t := by
  have hentries : ∀ e ∈ samplePair.entries, sampleDir <+: e.1 → e.1 ≠ sampleDir →
      e.2.metadata.fileType = .file := by decide +kernel
  have hfile := hentries _ (mem_entries_of_lookup hl (by simp [sampleDir]))
    (List.prefix_append _ _) (by simpa using hq)
  cases nd <;> cases hfile
  exact ⟨_, _, _, rfl⟩

theorem listsAll_samplePair {names : List FileName}
    (h : names.Perm (samplePair.names sampleDir)) :
    ListsAll (viewAt samplePair sampleDir) sampleDir fun _ => names := by
  intro q hq
  obtain rfl : q = [] := by
    by_contra hne
    obtain ⟨nd, hnd, hdir⟩ := hq.resolve_left hne
    obtain ⟨data, m, t, rfl⟩ := lookup_samplePair hne hnd
    cases hdir
  have hdir : samplePair.isDir sampleDir := by decide +kernel
  exact ⟨h.nodup_iff.2 (FS.nodup_names _ _), fun n => h.mem_iff.trans (FS.mem_names hdir)⟩

theorem site_sample {s : FS} (hdir : s.isDir sampleRoot)
    (hobjects : s.lookup (objectsDir sampleRoot) = none) (hd : s.isDir sampleDir) :
    Site (Blake3.ofTable orderHashes) sampleRoot (Loc.toPath sampleDir) sampleDir s :=
  ⟨Fresh.sound ⟨hdir, hobjects⟩, FS.leads_toPath hd, by decide, by decide⟩

/-- The order in which a directory is listed changes its hash. -/
theorem order_changes_hash :
    ListsAll (viewAt samplePair sampleDir) sampleDir (fun _ => [sampleNames.1, sampleNames.2]) ∧
      ListsAll (viewAt samplePair sampleDir) sampleDir (fun _ => [sampleNames.2, sampleNames.1]) ∧
      ∃ x₁ x₂, (sampleWalk [sampleNames.1, sampleNames.2]).1 = .ok (x₁, 2, 2) ∧
        (sampleWalk [sampleNames.2, sampleNames.1]).1 = .ok (x₂, 2, 2) ∧ x₁ ≠ x₂ :=
  ⟨listsAll_samplePair (by decide +kernel), listsAll_samplePair (by decide +kernel),
    treeHashes[0], treeHashes[1], sampleWalk_results.1, sampleWalk_results.2, by decide +kernel⟩

/-- The two walks of the sample, side by side. -/
theorem sameHash_sample : ((2 = 2) ∧ 2 = 2) ∧
    (SameOrder (viewAt samplePair sampleDir) sampleDir (fun _ => [sampleNames.1, sampleNames.2])
      (fun _ => [sampleNames.2, sampleNames.1]) → treeHashes[0] = treeHashes[1]) ∧
    (NamesUtf8 (viewAt samplePair sampleDir) → treeHashes[0] = treeHashes[1] →
      SameOrder (viewAt samplePair sampleDir) sampleDir (fun _ => [sampleNames.1, sampleNames.2])
        fun _ => [sampleNames.2, sampleNames.1]) :=
  sameHash_iff (Blake3.ofTable_lawful orderHashes) (Serde.ofTable_lawful orderJson)
    (site_sample (by decide +kernel) (by decide +kernel) (by decide +kernel))
    (listsAll_samplePair (by decide +kernel)) (listsAll_samplePair (by decide +kernel))
    (exec_sampleWalk sampleWalk_results.1) (exec_sampleWalk sampleWalk_results.2)

/-- The names with the single bytes 255 and 254, which are not UTF-8. -/
def oddNames : FileName × FileName := (⟨[255], by decide⟩, ⟨[254], by decide⟩)

/-- `/w` with a file under a name of its own. -/
def sampleOdd (n : FileName) : FS :=
  (sampleStore.remove sampleFile).insert (sampleDir ++ [n]) (.file (utf8 "a") 0o644 0)

theorem files_samplePair : Ordinary (viewAt samplePair sampleDir) ∧
    TargetsUtf8 (viewAt samplePair sampleDir) := by
  have hentries : ∀ e ∈ samplePair.entries,
      e.2.metadata.fileType = .file ∨ e.2.metadata.fileType = .dir := by decide +kernel
  have hplain : ∀ q nd, viewAt samplePair sampleDir q = some nd →
      nd.metadata.fileType = .file ∨ nd.metadata.fileType = .dir := fun q nd hq =>
    hentries _ (mem_entries_of_lookup hq (by simp [sampleDir]))
  refine ⟨fun q m t hq => ?_, fun q t m hq => ?_⟩
  · rcases hplain q _ hq with h | h <;> cases h
  · rcases hplain q _ hq with h | h <;> cases h

/-- `/w` is walked. -/
@[irreducible] def sampleWalked (fs : FS) : Except Error (String × ℕ × ℕ) × FS :=
  exec sampleKernel.handle ((managerAt sampleRoot).buildTree (Blake3.ofTable orderHashes)
    (Serde.ofTable orderJson) (fun _ _ => 1) 3 (Loc.toPath sampleDir)) fs

theorem exec_sampleWalked {s : FS} {r : Except Error (String × ℕ × ℕ)}
    (h : (sampleWalked s).1 = r) :
    exec sampleKernel.handle ((managerAt sampleRoot).buildTree (Blake3.ofTable orderHashes)
      (Serde.ofTable orderJson) (fun _ _ => 1) 3 (Loc.toPath sampleDir)) s =
      (r, (sampleWalked s).2) := by
  subst h
  unfold sampleWalked
  exact Prod.mk.eta.symm

/-- `/w` with two files is walked twice. -/
theorem same_of_hash_sample :
    SameWorkspace (viewAt samplePair sampleDir)
        (viewAt (sampleWalked samplePair).2 sampleDir) ∧
      DistinctNames (Serde.ofTable orderJson)
        (stored sampleRoot (sampleWalked samplePair).2) treeHashes[1] ∧
      DistinctNames (Serde.ofTable orderJson)
        (stored sampleRoot (sampleWalked (sampleWalked samplePair).2).2) treeHashes[1] := by
  have hresults : (sampleWalked samplePair).1 = .ok (treeHashes[1], 2, 2) ∧
      (sampleWalked (sampleWalked samplePair).2).1 = .ok (treeHashes[1], 2, 2) := by
    decide +kernel
  have hs := site_sample (s := samplePair) (by decide +kernel) (by decide +kernel)
    (by decide +kernel)
  have hutf : NamesUtf8 (viewAt samplePair sampleDir) := namesUtf8_of_entries (by decide +kernel) _
  obtain ⟨hord, htargets⟩ := files_samplePair
  obtain ⟨hw, -⟩ := ok_buildTree (Blake3.ofTable_lawful orderHashes)
    (Serde.ofTable_lawful orderJson) 3 hs hutf (exec_sampleWalked hresults.1)
  have hview := hs.view hw
  obtain ⟨hord', hutf', htargets'⟩ : Ordinary (viewAt (sampleWalked samplePair).2 sampleDir) ∧
      NamesUtf8 (viewAt (sampleWalked samplePair).2 sampleDir) ∧
      TargetsUtf8 (viewAt (sampleWalked samplePair).2 sampleDir) := by
    rw [hview]
    exact ⟨hord, hutf, htargets⟩
  exact same_of_hash (Blake3.ofTable_lawful orderHashes) (Serde.ofTable_lawful orderJson) hs
    (hs.later hw) hord hord' ⟨hutf, htargets, hutf', htargets'⟩
    (exec_sampleWalked hresults.1) (exec_sampleWalked hresults.2)

/-- Two workspaces with different paths have the same hash. -/
theorem workspaces_merged :
    (sampleWalked (sampleOdd oddNames.1)).1 = .ok (treeHashes[2], 1, 1) ∧
      (sampleWalked (sampleOdd oddNames.2)).1 = .ok (treeHashes[2], 1, 1) ∧
      ¬ SameWorkspace (viewAt (sampleOdd oddNames.1) sampleDir)
        (viewAt (sampleOdd oddNames.2) sampleDir) := by
  have hwalks : (sampleWalked (sampleOdd oddNames.1)).1 = .ok (treeHashes[2], 1, 1) ∧
      (sampleWalked (sampleOdd oddNames.2)).1 = .ok (treeHashes[2], 1, 1) := by decide +kernel
  have hlookups : (viewAt (sampleOdd oddNames.1) sampleDir [oddNames.1]).isSome = true ∧
      viewAt (sampleOdd oddNames.2) sampleDir [oddNames.1] = none := by decide +kernel
  refine ⟨hwalks.1, hwalks.2, fun hsame => ?_⟩
  have hpath := hsame [oddNames.1] (by simp)
  obtain ⟨nd, hnd⟩ := Option.isSome_iff_exists.1 hlookups.1
  rw [hnd, hlookups.2] at hpath
  cases hpath

end Sample

end SandD
