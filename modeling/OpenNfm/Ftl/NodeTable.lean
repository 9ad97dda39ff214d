import OpenNfm.Ftl.Rules
import OpenNfm.Program.PlacedItems

/-!
# The nodes of the page mapping

The nodes of the clusters are items in the blocks of the page mapping table, with the
meta page of a block as its directory.  The root has the place of a node on the device, or
the slot of the cache that holds it.  `Cached` says how the root, the cache and the places
fit together while `PMT_Commit` goes through the slots.
-/

namespace OpenNfm.Ftl

open OpenNfm.Program

variable {l : Layout} {D : Type}

/-! ## Places -/

/-- A block of the page mapping table. -/
def IsPmtBlock (l : Layout) (block : Nat) : Prop :=
  Layout.pmtStartBlock ≤ block ∧ block < l.dataStartBlock

/-- The pages of nodes, and the meta page of a block. -/
def nodeFormat (l : Layout) (D : Type) : ItemFormat (Nat → Nat) (Page (FtlPage D)) where
  bound := pmtClusterCount l
  width := l.pagePerPhyBlock - 1
  inArea := IsPmtBlock l
  holds words content := content.main = .node words
  names content page cluster := ∃ table, content.main = .clusters table ∧ table page = cluster

/-- A block has been written. -/
def UbiStore.Used (store : UbiStore D) (block : Nat) : Prop :=
  ∃ entry ∈ store.history, entry.1 = block

theorem used_write {store : UbiStore D} {block page other : Nat} {content : Page (FtlPage D)} :
    (store.write block page content).Used other ↔ other = block ∨ store.Used other := by
  unfold UbiStore.Used UbiStore.write
  rw [List.exists_mem_cons_iff]
  exact or_congr_left eq_comm

/-- The word that names a place. -/
def placeWord (l : Layout) (place : Place) : Nat :=
  PmNode.setBlockPage l.g place.1 place.2

/-- The dirty count of a block is a byte, and the table has its clusters and blocks. -/
structure Layout.NodesFit (l : Layout) : Prop extends Layout.Fits l where
  pages : l.pagePerPhyBlock ≤ 256
  two : 2 ≤ l.pagePerPhyBlock
  inCapacity : l.dataStartBlock ≤ l.capacity
  clusters : pmtClusterCount l ≤ l.maxPmClusters
  valid : pmtClusterCount l ≤ allOnes
  slots : 0 < pmtCacheCount l
  counts : l.dataStartBlock ≤ l.bdtPageCount * l.g.mppSize
  perNode : 0 < l.pmPerNode

theorem placeWord_mod (l : Layout) (place : Place) : placeWord l place % 4 = 1 := by
  unfold placeWord PmNode.setBlockPage
  omega

theorem placeWord_ne_invalid (l : Layout) (place : Place) : placeWord l place ≠ PmNode.invalid := by
  intro same
  have modulus := placeWord_mod l place
  rw [same] at modulus
  exact absurd modulus (by decide)

theorem isCached_placeWord (l : Layout) (place : Place) :
    PmNode.isCached (placeWord l place) = false :=
  PmNode.isCached_setBlockPage l.g place.1 place.2

namespace Layout.NodesFit

variable {place other : Place}

theorem block_place (fit : l.NodesFit) (inArea : IsPmtBlock l place.1)
    (isPage : place.2 < l.pagePerPhyBlock) : PmNode.block l.g (placeWord l place) = place.1 := by
  have := inArea.2
  have := fit.inCapacity
  exact fit.block_word (by omega) isPage

theorem page_place (fit : l.NodesFit) (inArea : IsPmtBlock l place.1)
    (isPage : place.2 < l.pagePerPhyBlock) : PmNode.page l.g (placeWord l place) = place.2 := by
  have := inArea.2
  have := fit.inCapacity
  exact fit.page_word (by omega) isPage

theorem width_lt (fit : l.NodesFit) : l.pagePerPhyBlock - 1 < l.pagePerPhyBlock := by
  have := fit.two
  omega

theorem isBlock (fit : l.NodesFit) {block : Nat} (inArea : IsPmtBlock l block) :
    block < l.capacity := by
  have := inArea.2
  have := fit.inCapacity
  omega

end Layout.NodesFit

/-! ## Slots -/

theorem slotAddress_inj {i j : Nat} (same : slotAddress l i = slotAddress l j) : i = j := by
  have positive : 0 < l.g.mppSize := Nat.two_pow_pos _
  exact Nat.eq_of_mul_eq_mul_right positive (Nat.add_left_cancel same)

/-- The address of a slot, with the dirty bit or without it. -/
def IsSlotWord (l : Layout) (i word : Nat) : Prop :=
  word = slotAddress l i ∨ word = PmNode.setDirty (slotAddress l i)

section SlotWords

variable {i word : Nat}

theorem IsSlotWord.mod (isSlotWord : IsSlotWord l i word) (aligned : slotAddress l i % 4 = 0) :
    word % 4 = 0 ∧ word = slotAddress l i ∨ word % 4 = 2 ∧ word = slotAddress l i + 2 := by
  rcases isSlotWord with rfl | rfl
  · exact Or.inl ⟨aligned, rfl⟩
  · rw [PmNode.setDirty_of_aligned aligned]
    exact Or.inr ⟨by omega, rfl⟩

theorem IsSlotWord.ne_place (isSlotWord : IsSlotWord l i word) (aligned : slotAddress l i % 4 = 0)
    (place : Place) : word ≠ placeWord l place := by
  intro same
  have modulus := placeWord_mod l place
  rcases isSlotWord.mod aligned with ⟨_, _⟩ | ⟨_, _⟩ <;> omega

theorem IsSlotWord.isCached (isSlotWord : IsSlotWord l i word)
    (aligned : slotAddress l i % 4 = 0) : PmNode.isCached word = true := by
  rcases isSlotWord.mod aligned with ⟨_, _⟩ | ⟨_, _⟩ <;> exact decide_eq_true (by omega)

theorem IsSlotWord.address (isSlotWord : IsSlotWord l i word)
    (aligned : slotAddress l i % 4 = 0) : PmNode.address word = slotAddress l i := by
  unfold PmNode.address
  rcases isSlotWord.mod aligned with ⟨_, _⟩ | ⟨_, _⟩ <;> omega

theorem IsSlotWord.inj {j : Nat} (isSlotWord : IsSlotWord l i word)
    (aligned : slotAddress l i % 4 = 0) (isSlotWord' : IsSlotWord l j word)
    (aligned' : slotAddress l j % 4 = 0) : i = j := by
  refine slotAddress_inj (l := l) ?_
  rw [← isSlotWord.address aligned, isSlotWord'.address aligned']

theorem isDirty_clean (aligned : slotAddress l i % 4 = 0) :
    PmNode.isDirty (slotAddress l i) = false :=
  decide_eq_false (by omega)

theorem isDirty_setDirty (aligned : slotAddress l i % 4 = 0) :
    PmNode.isDirty (PmNode.setDirty (slotAddress l i)) = true := by
  rw [PmNode.setDirty_of_aligned aligned]
  exact decide_eq_true (by omega)

theorem slotAt_slotAddress (isSlot : i < pmtCacheCount l) :
    slotAt l (slotAddress l i) = some i := by
  unfold slotAt
  cases found : (List.range (pmtCacheCount l)).find? fun j => slotAddress l j = slotAddress l i with
  | none =>
      have wrong := List.find?_eq_none.mp found i (List.mem_range.mpr isSlot)
      exact absurd (decide_eq_true rfl) wrong
  | some j =>
      have holds := List.find?_some (p := fun j => decide (slotAddress l j = slotAddress l i)) found
      rw [slotAddress_inj (of_decide_eq_true holds)]

end SlotWords

/-! ## The root, the cache and the places -/

/-- The root names the place of the node, which is not in the erased block, and its page
holds the mapping of the cluster. -/
structure OnPage (l : Layout) (map : Nat → Nat → Nat) (place : Nat → Place)
    (nodes : Nat → Nat → Nat) (erased : Option Nat) (ram : FtlRam) (cluster : Nat) : Prop where
  word : ram.rootTable.pageMappingNodes cluster = placeWord l (place cluster)
  node : nodes cluster = map cluster
  intact : erased ≠ some (place cluster).1

/-- A slot holds the mapping of a cluster.  If the slot is clean, so does the page that it
was loaded from. -/
structure InSlot (l : Layout) (map : Nat → Nat → Nat) (place : Nat → Place)
    (nodes : Nat → Nat → Nat) (erased : Option Nat) (ram : FtlRam) (cluster k : Nat) : Prop where
  inSlot : ram.pmCacheCluster k = cluster
  origin : ram.pmCacheOriginLocation k = placeWord l (place cluster)
  words : ram.pmNodeCaches k = map cluster
  state : ram.rootTable.pageMappingNodes cluster = slotAddress l k ∧
      nodes cluster = map cluster ∧ erased ≠ some (place cluster).1 ∨
    ram.rootTable.pageMappingNodes cluster = PmNode.setDirty (slotAddress l k)

/-- Each cluster is on its page, or in one of the slots from `i` on; the slots before `i` have
been written back.  No cluster has two slots. -/
structure Cached (l : Layout) (i : Nat) (map : Nat → Nat → Nat) (place : Nat → Place)
    (nodes : Nat → Nat → Nat) (erased : Option Nat) (ram : FtlRam) : Prop where
  cluster : ∀ cluster < pmtClusterCount l, OnPage l map place nodes erased ram cluster ∨
    ∃ k, i ≤ k ∧ k < pmtCacheCount l ∧ InSlot l map place nodes erased ram cluster k
  slot : ∀ k, i ≤ k → Registered l ram k → ram.pmCacheCluster k < pmtClusterCount l ∧
    IsSlotWord l k (slotWord ram k) ∧ slotAddress l k % 4 = 0
  once : ∀ k j, Registered l ram k → Registered l ram j →
    ram.pmCacheCluster k = ram.pmCacheCluster j → k = j

/-- The commit has still to write the cluster back. -/
def Pending (ram : FtlRam) (cluster : Nat) : Prop :=
  PmNode.isCached (ram.rootTable.pageMappingNodes cluster) = true ∧
    PmNode.isDirty (ram.rootTable.pageMappingNodes cluster) = true

section Cached

variable {i k cluster : Nat} {map nodes : Nat → Nat → Nat} {place : Nat → Place}
  {erased : Option Nat} {ram : FtlRam}

theorem OnPage.not_pending (onPage : OnPage l map place nodes erased ram cluster) :
    ¬ Pending ram cluster := by
  rintro ⟨cached, _⟩
  rw [onPage.word, isCached_placeWord] at cached
  exact Bool.false_ne_true cached

theorem InSlot.isSlotWord (inSlot : InSlot l map place nodes erased ram cluster k) :
    IsSlotWord l k (ram.rootTable.pageMappingNodes cluster) := by
  rcases inSlot.state with ⟨clean, _⟩ | dirty
  · exact Or.inl clean
  · exact Or.inr dirty

namespace Cached

/-- What a registered slot holds. -/
theorem holds (cached : Cached l i map place nodes erased ram) (behind : i ≤ k)
    (registered : Registered l ram k) :
    InSlot l map place nodes erased ram (ram.pmCacheCluster k) k := by
  obtain ⟨isCluster, isSlotWord, aligned⟩ := cached.slot k behind registered
  rcases cached.cluster _ isCluster with onPage | ⟨j, _, isSlot, inSlot⟩
  · exact absurd onPage.word (isSlotWord.ne_place aligned _)
  · have registered' : Registered l ram j := by
      refine ⟨isSlot, ?_⟩
      rw [inSlot.inSlot]
      exact registered.2
    obtain rfl := cached.once j k registered' registered inSlot.inSlot
    exact inSlot

/-- A clean cluster is not pending. -/
theorem not_pending (cached : Cached l i map place nodes erased ram) (behind : i ≤ k)
    (registered : Registered l ram k) (clean : slotWord ram k = slotAddress l k) :
    ¬ Pending ram (ram.pmCacheCluster k) := by
  rintro ⟨_, dirty⟩
  have word : ram.rootTable.pageMappingNodes (ram.pmCacheCluster k) = slotAddress l k := clean
  rw [word, isDirty_clean (cached.slot k behind registered).2.2] at dirty
  exact Bool.false_ne_true dirty

theorem registered (fit : l.NodesFit) (isCluster : cluster < pmtClusterCount l)
    (isSlot : k < pmtCacheCount l) (inSlot : ram.pmCacheCluster k = cluster) :
    Registered l ram k := by
  refine ⟨isSlot, ?_⟩
  have := fit.valid
  rw [inSlot, invalidCluster]
  omega

/-- A cluster that is not pending has its mapping on its page. -/
theorem stored (cached : Cached l i map place nodes erased ram) (fit : l.NodesFit)
    (isCluster : cluster < pmtClusterCount l) (kept : ¬ Pending ram cluster) :
    nodes cluster = map cluster ∧ erased ≠ some (place cluster).1 := by
  rcases cached.cluster cluster isCluster with onPage | ⟨k, behind, isSlot, inSlot⟩
  · exact ⟨onPage.node, onPage.intact⟩
  · have here := Cached.registered fit isCluster isSlot inSlot.inSlot
    have aligned := (cached.slot k behind here).2.2
    rcases inSlot.state with ⟨_, stored⟩ | dirty
    · exact stored
    · refine absurd ⟨?_, ?_⟩ kept
      · rw [dirty]
        exact IsSlotWord.isCached (Or.inr rfl) aligned
      · rw [dirty]
        exact isDirty_setDirty aligned

/-! ### Changes of the memory -/

/-- The memory where the node of another cluster is. -/
theorem congr {ram' : FtlRam} (cached : Cached l i map place nodes erased ram)
    (words : ram'.rootTable.pageMappingNodes = ram.rootTable.pageMappingNodes)
    (clusters : ram'.pmCacheCluster = ram.pmCacheCluster)
    (origins : ram'.pmCacheOriginLocation = ram.pmCacheOriginLocation)
    (caches : ram'.pmNodeCaches = ram.pmNodeCaches) :
    Cached l i map place nodes erased ram' := by
  obtain ⟨cluster, slot, once⟩ := cached
  refine ⟨fun c isCluster => ?_, fun k behind registered => ?_, ?_⟩
  · rcases cluster c isCluster with ⟨word, node, intact⟩ | ⟨k, behind, isSlot, inSlot⟩
    · exact Or.inl ⟨words ▸ word, node, intact⟩
    · refine Or.inr ⟨k, behind, isSlot, ?_⟩
      exact ⟨clusters ▸ inSlot.inSlot, origins ▸ inSlot.origin, caches ▸ inSlot.words,
        words ▸ inSlot.state⟩
  · have registered' : Registered l ram k := ⟨registered.1, clusters ▸ registered.2⟩
    rw [slotWord, words, clusters]
    exact slot k behind registered'
  · intro k j registered registered' same
    rw [clusters] at same
    exact once k j ⟨registered.1, clusters ▸ registered.2⟩ ⟨registered'.1, clusters ▸ registered'.2⟩
      same

/-- An empty slot needs no write. -/
theorem skip (cached : Cached l i map place nodes erased ram) (fit : l.NodesFit)
    (empty : ram.pmCacheCluster i = invalidCluster) :
    Cached l (i + 1) map place nodes erased ram where
  cluster c isCluster := by
    refine (cached.cluster c isCluster).imp_right fun ⟨k, behind, isSlot, inSlot⟩ => ?_
    have different : k ≠ i := by
      rintro rfl
      exact (Cached.registered fit isCluster isSlot inSlot.inSlot).2 empty
    exact ⟨k, by omega, isSlot, inSlot⟩
  slot k behind := cached.slot k (by omega)
  once := cached.once

/-- The clusters of the other slots. -/
theorem other_cluster (cached : Cached l i map place nodes erased ram)
    (registered : Registered l ram i) (registered' : Registered l ram k) (different : k ≠ i) :
    ram.pmCacheCluster k ≠ ram.pmCacheCluster i :=
  fun same => different (cached.once k i registered' registered same)

/-- The root has a new word for the cluster of slot `i`, which is on its page then. -/
theorem past {place' : Nat → Place} {nodes' : Nat → Nat → Nat} {ram' : FtlRam} {word : Nat}
    (cached : Cached l i map place nodes erased ram) (here : Registered l ram i)
    (words : ram'.rootTable.pageMappingNodes =
      Function.update ram.rootTable.pageMappingNodes (ram.pmCacheCluster i) word)
    (clusters : ram'.pmCacheCluster = ram.pmCacheCluster)
    (origins : ram'.pmCacheOriginLocation = ram.pmCacheOriginLocation)
    (caches : ram'.pmNodeCaches = ram.pmNodeCaches)
    (places : ∀ c, c ≠ ram.pmCacheCluster i → place' c = place c)
    (values : ∀ c, c ≠ ram.pmCacheCluster i → nodes' c = nodes c)
    (placed : word = placeWord l (place' (ram.pmCacheCluster i)))
    (value : nodes' (ram.pmCacheCluster i) = map (ram.pmCacheCluster i))
    (intact : erased ≠ some (place' (ram.pmCacheCluster i)).1) :
    Cached l (i + 1) map place' nodes' erased ram' := by
  have otherWord : ∀ c, c ≠ ram.pmCacheCluster i →
      ram'.rootTable.pageMappingNodes c = ram.rootTable.pageMappingNodes c := fun c different => by
    rw [words, Function.update_of_ne different]
  have before : ∀ k, Registered l ram' k → Registered l ram k := fun k registered =>
    ⟨registered.1, clusters ▸ registered.2⟩
  refine ⟨fun c isCluster => ?_, fun k behind registered => ?_,
    fun k j registered registered' => ?_⟩
  · by_cases same : c = ram.pmCacheCluster i
    · subst same
      refine Or.inl ⟨?_, value, intact⟩
      rw [words, Function.update_self, placed]
    · rcases cached.cluster c isCluster with onPage | ⟨k, behind, isSlot, inSlot⟩
      · refine Or.inl ⟨?_, ?_, ?_⟩
        · rw [otherWord c same, places c same, onPage.word]
        · rw [values c same, onPage.node]
        · rw [places c same]
          exact onPage.intact
      · have different : k ≠ i := by
          rintro rfl
          exact same inSlot.inSlot.symm
        refine Or.inr ⟨k, by omega, isSlot, ?_, ?_, ?_, ?_⟩
        · rw [clusters, inSlot.inSlot]
        · rw [origins, places c same, inSlot.origin]
        · rw [caches, inSlot.words]
        · rw [otherWord c same, values c same, places c same]
          exact inSlot.state
  · have registered' := before k registered
    have different := cached.other_cluster here registered' (by omega)
    rw [slotWord, clusters, otherWord _ different]
    exact cached.slot k (by omega) registered'
  · rw [clusters]
    exact cached.once k j (before k registered) (before j registered')

/-- The node of a cluster that is not pending has moved to another place.  The slot that the
cluster had is empty. -/
theorem move {place' : Nat → Place} {ram' : FtlRam} {c word : Nat} {cleared : Option Nat}
    (cached : Cached l i map place nodes erased ram) (fit : l.NodesFit)
    (isCluster : c < pmtClusterCount l) (kept : ¬ Pending ram c)
    (slots : ∀ k, i ≤ k → k < pmtCacheCount l → ram.pmCacheCluster k = c → cleared = some k)
    (clears : ∀ k, cleared = some k → ram.pmCacheCluster k = c)
    (words : ram'.rootTable.pageMappingNodes =
      Function.update ram.rootTable.pageMappingNodes c word)
    (clusters : ∀ k, ram'.pmCacheCluster k =
      if cleared = some k then invalidCluster else ram.pmCacheCluster k)
    (origins : ∀ k, cleared ≠ some k → ram'.pmCacheOriginLocation k = ram.pmCacheOriginLocation k)
    (caches : ∀ k, cleared ≠ some k → ram'.pmNodeCaches k = ram.pmNodeCaches k)
    (places : ∀ other, other ≠ c → place' other = place other)
    (placed : word = placeWord l (place' c)) (intact : erased ≠ some (place' c).1) :
    Cached l i map place' nodes erased ram' := by
  have before : ∀ k, Registered l ram' k → cleared ≠ some k ∧ Registered l ram k := by
    intro k registered
    have valid := registered.2
    rw [clusters] at valid
    by_cases same : cleared = some k
    · rw [if_pos same] at valid
      exact absurd rfl valid
    · rw [if_neg same] at valid
      exact ⟨same, registered.1, valid⟩
  have stillIn : ∀ k, cleared ≠ some k → ram'.pmCacheCluster k = ram.pmCacheCluster k :=
    fun k other => by rw [clusters, if_neg other]
  refine ⟨fun other isOther => ?_, fun k behind registered => ?_,
    fun k j registered registered' => ?_⟩
  · by_cases same : other = c
    · subst same
      refine Or.inl ⟨?_, (cached.stored fit isCluster kept).1, intact⟩
      rw [words, Function.update_self, placed]
    · rcases cached.cluster other isOther with onPage | ⟨k, behind, isSlot, inSlot⟩
      · refine Or.inl ⟨?_, onPage.node, ?_⟩
        · rw [words, Function.update_of_ne same, places other same, onPage.word]
        · rw [places other same]
          exact onPage.intact
      · have different : cleared ≠ some k := fun wrong =>
          same (inSlot.inSlot.symm.trans (clears k wrong))
        refine Or.inr ⟨k, behind, isSlot, ?_, ?_, ?_, ?_⟩
        · rw [stillIn k different, inSlot.inSlot]
        · rw [origins k different, places other same, inSlot.origin]
        · rw [caches k different, inSlot.words]
        · rw [words, Function.update_of_ne same, places other same]
          exact inSlot.state
  · obtain ⟨different, registered'⟩ := before k registered
    have notMoved : ram.pmCacheCluster k ≠ c := fun same =>
      different (slots k behind registered.1 same)
    rw [slotWord, stillIn k different, words, Function.update_of_ne notMoved]
    exact cached.slot k behind registered'
  · obtain ⟨different, first⟩ := before k registered
    obtain ⟨different', second⟩ := before j registered'
    rw [stillIn k different, stillIn j different']
    exact cached.once k j first second

/-- The block behind the erased one takes its part once nothing but pending clusters is in it. -/
theorem withErased {erased' : Option Nat} (cached : Cached l i map place nodes erased ram)
    (fit : l.NodesFit)
    (kept : ∀ c < pmtClusterCount l, ¬ Pending ram c → erased' ≠ some (place c).1) :
    Cached l i map place nodes erased' ram := by
  refine ⟨fun c isCluster => ?_, cached.slot, cached.once⟩
  rcases cached.cluster c isCluster with onPage | ⟨k, behind, isSlot, inSlot⟩
  · exact Or.inl ⟨onPage.word, onPage.node, kept c isCluster onPage.not_pending⟩
  · refine Or.inr ⟨k, behind, isSlot, inSlot.inSlot, inSlot.origin, inSlot.words, ?_⟩
    refine inSlot.state.imp_left fun ⟨clean, stored, _⟩ => ⟨clean, stored, kept c isCluster ?_⟩
    have registered := Cached.registered fit isCluster isSlot inSlot.inSlot
    have word : slotWord ram k = slotAddress l k := by
      rw [slotWord, inSlot.inSlot, clean]
    have notPending := cached.not_pending behind registered word
    rw [inSlot.inSlot] at notPending
    exact notPending

/-- Words are read into a slot that holds no node. -/
theorem fill (words : Nat → Nat) (cached : Cached l i map place nodes erased ram)
    (fit : l.NodesFit) (empty : ¬ Registered l ram k) :
    Cached l i map place nodes erased
      { ram with pmNodeCaches := Function.update ram.pmNodeCaches k words } := by
  refine ⟨fun c isCluster => ?_, cached.slot, cached.once⟩
  rcases cached.cluster c isCluster with onPage | ⟨j, behind, isSlot, inSlot⟩
  · exact Or.inl ⟨onPage.word, onPage.node, onPage.intact⟩
  · have different : j ≠ k := by
      rintro rfl
      exact empty (Cached.registered fit isCluster isSlot inSlot.inSlot)
    exact Or.inr ⟨j, behind, isSlot, inSlot.inSlot, inSlot.origin,
      (Function.update_of_ne different _ _).trans inSlot.words, inSlot.state⟩

/-- The node of a cluster is loaded into an empty slot. -/
theorem load {c : Nat} (cached : Cached l 0 map place nodes erased ram) (fit : l.NodesFit)
    (isCluster : c < pmtClusterCount l) (isSlot : k < pmtCacheCount l)
    (empty : ¬ Registered l ram k)
    (word : ram.rootTable.pageMappingNodes c = placeWord l (place c))
    (words : ram.pmNodeCaches k = nodes c) (aligned : slotAddress l k % 4 = 0) :
    Cached l 0 map place nodes erased (cacheNode l k (place c).1 (place c).2 c ram) := by
  have onPage : OnPage l map place nodes erased ram c := by
    rcases cached.cluster c isCluster with onPage | ⟨j, _, isSlot', inSlot⟩
    · exact onPage
    · have registered := Cached.registered fit isCluster isSlot' inSlot.inSlot
      exact absurd word (inSlot.isSlotWord.ne_place
        (cached.slot j (Nat.zero_le j) registered).2.2 _)
  have slotHere : (cacheNode l k (place c).1 (place c).2 c ram).pmCacheCluster k = c :=
    Function.update_self _ _ _
  have slotOther : ∀ j, j ≠ k →
      (cacheNode l k (place c).1 (place c).2 c ram).pmCacheCluster j = ram.pmCacheCluster j :=
    fun j other => Function.update_of_ne other _ _
  have wordHere : (cacheNode l k (place c).1 (place c).2 c ram).rootTable.pageMappingNodes c =
      slotAddress l k := Function.update_self _ _ _
  have wordOther : ∀ other, other ≠ c →
      (cacheNode l k (place c).1 (place c).2 c ram).rootTable.pageMappingNodes other =
        ram.rootTable.pageMappingNodes other :=
    fun other different => Function.update_of_ne different _ _
  have before : ∀ j, j ≠ k → Registered l (cacheNode l k (place c).1 (place c).2 c ram) j →
      Registered l ram j := fun j other registered =>
    ⟨registered.1, slotOther j other ▸ registered.2⟩
  have notLoaded : ∀ j, Registered l ram j → ram.pmCacheCluster j ≠ c := by
    rintro j registered rfl
    obtain ⟨_, isSlotWord, aligned'⟩ := cached.slot j (Nat.zero_le j) registered
    exact isSlotWord.ne_place aligned' _ word
  refine ⟨fun other isOther => ?_, fun j _ registered => ?_, fun j j' registered registered' => ?_⟩
  · by_cases same : other = c
    · subst same
      exact Or.inr ⟨k, Nat.zero_le k, isSlot, slotHere, Function.update_self _ _ _,
        words.trans onPage.node, Or.inl ⟨wordHere, onPage.node, onPage.intact⟩⟩
    · rcases cached.cluster other isOther with onPage | ⟨j, _, isSlot', inSlot⟩
      · exact Or.inl ⟨(wordOther other same).trans onPage.word, onPage.node, onPage.intact⟩
      · have different : j ≠ k := by
          rintro rfl
          exact empty (Cached.registered fit isOther isSlot inSlot.inSlot)
        refine Or.inr ⟨j, Nat.zero_le j, isSlot', (slotOther j different).trans inSlot.inSlot,
          (Function.update_of_ne different _ _).trans inSlot.origin, inSlot.words, ?_⟩
        rw [wordOther other same]
        exact inSlot.state
  · by_cases here : j = k
    · subst here
      rw [slotWord, slotHere, wordHere]
      exact ⟨isCluster, Or.inl rfl, aligned⟩
    · have registered' := before j here registered
      rw [slotWord, slotOther j here, wordOther _ (notLoaded j registered')]
      exact cached.slot j (Nat.zero_le j) registered'
  · intro same
    by_cases here : j = k <;> by_cases here' : j' = k
    · rw [here, here']
    · subst here
      rw [slotHere, slotOther j' here'] at same
      exact absurd same.symm (notLoaded j' (before j' here' registered'))
    · subst here'
      rw [slotHere, slotOther j here] at same
      exact absurd same (notLoaded j (before j here registered))
    · rw [slotOther j here, slotOther j' here'] at same
      exact cached.once j j' (before j here registered) (before j' here' registered') same

/-- A word of a cluster in a slot is changed, and the slot is dirty. -/
theorem enter {pageAddr word : Nat} (cached : Cached l 0 map place nodes erased ram)
    (fit : l.NodesFit) (isCluster : clusterIndex l pageAddr < pmtClusterCount l)
    (isSlot : k < pmtCacheCount l)
    (inSlot : InSlot l map place nodes erased ram (clusterIndex l pageAddr) k) :
    Cached l 0 (Function.update map (clusterIndex l pageAddr)
      (Function.update (map (clusterIndex l pageAddr)) (pageInCluster l pageAddr) word))
      place nodes erased (enterWord l k pageAddr word ram) := by
  have dirty : PmNode.setDirty (ram.rootTable.pageMappingNodes (clusterIndex l pageAddr)) =
      PmNode.setDirty (slotAddress l k) := by
    rcases inSlot.isSlotWord with same | same
    · rw [same]
    · rw [same, PmNode.setDirty_setDirty]
  have wordHere : (enterWord l k pageAddr word ram).rootTable.pageMappingNodes
      (clusterIndex l pageAddr) = PmNode.setDirty (slotAddress l k) :=
    (Function.update_self _ _ _).trans dirty
  have wordOther : ∀ other, other ≠ clusterIndex l pageAddr →
      (enterWord l k pageAddr word ram).rootTable.pageMappingNodes other =
        ram.rootTable.pageMappingNodes other :=
    fun other different => Function.update_of_ne different _ _
  have mapOther : ∀ other, other ≠ clusterIndex l pageAddr →
      Function.update map (clusterIndex l pageAddr) (Function.update
        (map (clusterIndex l pageAddr)) (pageInCluster l pageAddr) word) other = map other :=
    fun other different => Function.update_of_ne different _ _
  have here := Cached.registered fit isCluster isSlot inSlot.inSlot
  refine ⟨fun other isOther => ?_, fun j _ registered => ?_, cached.once⟩
  · by_cases same : other = clusterIndex l pageAddr
    · subst same
      refine Or.inr ⟨k, Nat.zero_le k, isSlot, inSlot.inSlot, inSlot.origin, ?_, Or.inr wordHere⟩
      rw [Function.update_self]
      have changed : (enterWord l k pageAddr word ram).pmNodeCaches k =
          Function.update (ram.pmNodeCaches k) (pageInCluster l pageAddr) word :=
        Function.update_self _ _ _
      rw [changed, inSlot.words]
    · rcases cached.cluster other isOther with onPage | ⟨j, _, isSlot', inSlot'⟩
      · refine Or.inl ⟨(wordOther other same).trans onPage.word, ?_, onPage.intact⟩
        rw [mapOther other same, onPage.node]
      · have different : j ≠ k := by
          rintro rfl
          exact same (inSlot'.inSlot.symm.trans inSlot.inSlot)
        refine Or.inr ⟨j, Nat.zero_le j, isSlot', inSlot'.inSlot, inSlot'.origin, ?_, ?_⟩
        · rw [mapOther other same]
          exact (Function.update_of_ne different _ _).trans inSlot'.words
        · rw [wordOther other same, mapOther other same]
          exact inSlot'.state
  · obtain ⟨isCluster', isSlotWord, aligned⟩ := cached.slot j (Nat.zero_le j) registered
    refine ⟨isCluster', ?_, aligned⟩
    by_cases same : j = k
    · subst same
      have cluster : (enterWord l j pageAddr word ram).pmCacheCluster j = clusterIndex l pageAddr :=
        inSlot.inSlot
      rw [slotWord, cluster, wordHere]
      exact Or.inr rfl
    · have different : (enterWord l k pageAddr word ram).pmCacheCluster j ≠
          clusterIndex l pageAddr := fun wrong =>
        same (cached.once j k registered here (wrong.trans inSlot.inSlot.symm))
      rw [slotWord, wordOther _ different]
      exact isSlotWord

end Cached

end Cached

end OpenNfm.Ftl
