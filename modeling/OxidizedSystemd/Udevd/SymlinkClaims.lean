import OxidizedSystemd.Lib.Run
import OxidizedSystemd.Udevd.DbRoundTrip
import OxidizedSystemd.Udevd.Symlinks

/-!
# Symlinks and claims

An event that does not list a link again leaves the claim as it is, and its entry in the database
no longer tells of the link.

* `fileOf_eq_of_stackDirectory`: a directory of claims belongs to one file.
* `best_findPrioritized`: the winner is a claim of greatest priority.
* `Tracks.processEvent`: what an event preserves.
* `follows_of_steady`: when symlinks follow the latest events.
-/

namespace OxidizedSystemd.Udevd

open Lib

/-! ## Paths -/

theorem udevNodeEscapePath_cons (c : Char) (src : Text) : udevNodeEscapePath (c :: src) =
    (if c = '/' then "\\x2f".toList else if c = '\\' then "\\x5c".toList else [c]) ++
      udevNodeEscapePath src := rfl

theorem udevNodeEscapePath_injective : Function.Injective udevNodeEscapePath := by
  intro as
  induction as with
  | nil =>
    intro bs h
    cases bs with
    | nil => rfl
    | cons b bs =>
      rw [udevNodeEscapePath_cons] at h
      split at h
      · cases h
      · split at h <;> cases h
  | cons a as ih =>
    intro bs h
    cases bs with
    | nil =>
      rw [udevNodeEscapePath_cons] at h
      split at h
      · cases h
      · split at h <;> cases h
    | cons b bs =>
      rw [udevNodeEscapePath_cons, udevNodeEscapePath_cons] at h
      have hslash : "\\x2f".toList = ['\\', 'x', '2', 'f'] := rfl
      have hbackslash : "\\x5c".toList = ['\\', 'x', '5', 'c'] := rfl
      rw [hslash, hbackslash] at h
      have hhead : a = b ∧ udevNodeEscapePath as = udevNodeEscapePath bs := by
        by_cases ha : a = '/'
        · by_cases hb : b = '/'
          · simpa [ha, hb] using h
          · by_cases hb' : b = '\\'
            · simp [ha, hb'] at h
            · simp [ha, hb, hb'] at h
              exact absurd h.1.symm hb'
        · by_cases ha' : a = '\\'
          · by_cases hb : b = '/'
            · simp [ha', hb] at h
            · by_cases hb' : b = '\\'
              · simpa [ha', hb'] using h
              · simp [ha', hb, hb'] at h
                exact absurd h.1.symm hb'
          · by_cases hb : b = '/'
            · simp [ha, ha', hb] at h
            · by_cases hb' : b = '\\'
              · simp [ha, ha', hb'] at h
              · simpa [ha, ha', hb, hb'] using h
      rw [hhead.1, ih hhead.2]

theorem filter_dropWhile {α : Type*} (p : α → Bool) (l : List α) :
    (l.dropWhile p).filter (fun a => !p a) = l.filter fun a => !p a := by
  induction l with
  | nil => rfl
  | cons a l ih =>
    by_cases h : p a
    · simp [h, ih]
    · simp [h]

theorem filter_rdropWhile {α : Type*} (p : α → Bool) (l : List α) :
    (l.rdropWhile p).filter (fun a => !p a) = l.filter fun a => !p a := by
  rw [List.rdropWhile, List.filter_reverse, filter_dropWhile, List.filter_reverse,
    List.reverse_reverse]

/-- The components of a path below `/dev`. -/
theorem filter_splitOn_of_stripDev {path name : Text} (h : stripDev path = some name) :
    (path.splitOn '/').filter (fun c => !isRedundant c) =
      "dev".toList :: (name.splitOn '/').filter fun c => !isRedundant c := by
  unfold stripDev at h
  split at h
  · rename_i first rest hrest
    split at h
    · rename_i hfirst
      have hsplit : ∀ l : List Text, (∀ c ∈ l, '/' ∉ c) →
          ((['/'].intercalate l).splitOn '/').filter (fun c => !isRedundant c) =
            l.filter fun c => !isRedundant c := by
        intro l hl
        by_cases hnil : l = []
        · subst hnil
          decide
        · rw [List.splitOn_intercalate '/' hl hnil]
      have hmem : ∀ c ∈ (rest.dropWhile isRedundant).rdropWhile isRedundant, '/' ∉ c := by
        intro c hc
        apply not_mem_of_mem_splitOn
        have hrest' : c ∈ rest :=
          List.dropWhile_subset _ ((List.rdropWhile_prefix _ _).subset hc)
        have hin : c ∈ (path.splitOn '/').dropWhile isRedundant := by
          rw [hrest]
          exact List.mem_cons_of_mem _ hrest'
        exact List.dropWhile_subset _ hin
      rw [← Option.some.inj h, hsplit _ hmem, filter_rdropWhile, filter_dropWhile,
        ← filter_dropWhile, hrest, hfirst]
      rfl
    · cases h
  · cases h

/-- A directory of claims belongs to one file. -/
theorem fileOf_eq_of_stackDirectory {path path' dir : Text} (h : stackDirectory path = some dir)
    (h' : stackDirectory path' = some dir) : fileOf path = fileOf path' := by
  have hname : ∀ {p : Text}, stackDirectory p = some dir →
      ∃ name, stripDev p = some name ∧ udevNodeEscapePath name = dir := by
    intro p hp
    unfold stackDirectory at hp
    split at hp
    · rename_i name hstrip
      split at hp
      · cases hp
      · exact ⟨name, hstrip, Option.some.inj hp⟩
    · cases hp
  obtain ⟨name, hstrip, hdir⟩ := hname h
  obtain ⟨name', hstrip', hdir'⟩ := hname h'
  obtain rfl := udevNodeEscapePath_injective (hdir.trans hdir'.symm)
  rw [fileOf, fileOf, filter_splitOn_of_stripDev hstrip, filter_splitOn_of_stripDev hstrip']

/-! ## Claims -/

/-- The values of an `i32`. -/
def IsPriority (priority : ℤ) : Prop := -(2 ^ 31) ≤ priority ∧ priority ≤ 2 ^ 31 - 1

theorem parseDigits_le {radix max acc n : ℕ} {cs : Text} (hacc : acc ≤ max)
    (h : parseDigits radix max acc cs = some n) : n ≤ max := by
  induction cs generalizing acc with
  | nil =>
    rw [← Option.some.inj h]
    exact hacc
  | cons c cs ih =>
    rw [parseDigits] at h
    obtain ⟨d, -, h⟩ := Option.bind_eq_some_iff.mp h
    split at h
    · rename_i hle
      exact ih hle h
    · cases h

theorem fromStrRadix_le {radix max n : ℕ} {cs : Text} (h : fromStrRadix radix max cs = some n) :
    n ≤ max := by
  unfold fromStrRadix at h
  split at h
  · cases h
  · cases h
  · exact parseDigits_le (Nat.zero_le _) h
  · exact parseDigits_le (Nat.zero_le _) h

theorem isPriority_of_parseSigned {cs : Text} {z : ℤ} (h : parseSigned (2 ^ 31 - 1) cs = some z) :
    IsPriority z := by
  unfold IsPriority
  unfold parseSigned at h
  split at h
  · cases h
  · obtain ⟨n, hn, rfl⟩ := Option.map_eq_some_iff.mp h
    have hle := parseDigits_le (Nat.zero_le _) hn
    omega
  · obtain ⟨n, hn, rfl⟩ := Option.map_eq_some_iff.mp h
    have hle := fromStrRadix_le hn
    omega

theorem isPriority_devlinkPriority (options : List Text) :
    IsPriority (devlinkPriority options) := by
  unfold devlinkPriority
  cases h : (options.findSome? (stripPrefix "link_priority=".toList)).bind fun v =>
      parseSigned (2 ^ 31 - 1) (trim v) with
  | none => exact ⟨by decide, by decide⟩
  | some z =>
    obtain ⟨v, -, hparse⟩ := Option.bind_eq_some_iff.mp h
    exact isPriority_of_parseSigned hparse

/-- A claim is read as it was made. -/
theorem readClaim_claimData {priority : ℤ} (h : IsPriority priority) (devnode : Text) :
    readClaim (claimData priority devnode) = some (priority, devnode) := by
  have hsplit : splitOnce [':'] (claimData priority devnode) =
      some (signedDecimal priority, devnode) :=
    splitOnce_singleton_eq_some_iff.mpr
      ⟨not_mem_signedDecimal (by decide) (by decide) priority, rfl⟩
  have hparse : parseSigned (2 ^ 31 - 1) (signedDecimal priority) = some priority := by
    obtain ⟨hge, hle⟩ := h
    apply parseSigned_signedDecimal
    · simpa using hle
    · simpa using hge
  rw [readClaim, hsplit, Option.bind_some, hparse]
  rfl

/-- The claim of the device is replaced. -/
theorem mem_stackDirectoryUpdate_true {dir : Claims} {id devnode : Text} {priority : ℤ}
    (hone : ∀ data data', (id, data) ∈ dir → (id, data') ∈ dir → data = data')
    {entry : Text × Text} : entry ∈ stackDirectoryUpdate dir id devnode priority true ↔
      (entry.1 ≠ id ∧ entry ∈ dir) ∨ entry = (id, claimData priority devnode) := by
  unfold stackDirectoryUpdate
  rw [if_pos rfl]
  dsimp only
  split
  · rename_i hmem
    constructor
    · intro hentry
      by_cases hid : entry.1 = id
      · right
        obtain ⟨id', data⟩ := entry
        obtain rfl : id' = id := hid
        rw [hone data _ hentry hmem]
      · exact Or.inl ⟨hid, hentry⟩
    · rintro (⟨-, hentry⟩ | rfl)
      · exact hentry
      · exact hmem
  · simp [and_comm]

theorem mem_stackDirectoryUpdate_false {dir : Claims} {id devnode : Text} {priority : ℤ}
    {entry : Text × Text} : entry ∈ stackDirectoryUpdate dir id devnode priority false ↔
      entry.1 ≠ id ∧ entry ∈ dir := by
  simp [stackDirectoryUpdate, and_comm]

/-- The second time nothing changes. -/
theorem stackDirectoryUpdate_idem (dir : Claims) (id devnode : Text) (priority : ℤ) (add : Bool) :
    stackDirectoryUpdate (stackDirectoryUpdate dir id devnode priority add) id devnode priority
        add =
      stackDirectoryUpdate dir id devnode priority add := by
  unfold stackDirectoryUpdate
  cases add with
  | false => simp
  | true =>
    by_cases hmem : (id, claimData priority devnode) ∈ dir
    · simp [hmem]
    · simp [hmem]

/-! ## The winner -/

/-- The winner is a claim of greatest priority, and there is none only without claims. -/
def Best (entries : Claims) (winner : Option Text) : Prop :=
  (winner = none ↔ entries = []) ∧ ∀ devnode, winner = some devnode →
    ∃ entry ∈ entries, ∃ priority, readClaim entry.2 = some (priority, devnode) ∧
      ∀ other ∈ entries, ∀ priority' devnode', readClaim other.2 = some (priority', devnode') →
        priority' ≤ priority

/-- A claim that can be read, of a node that exists. -/
def Readable (sight : Sight) (entry : Text × Text) : Prop :=
  ∃ priority devnode, readClaim entry.2 = some (priority, devnode) ∧ sight.exist devnode = true

/-- What the loop over the entries holds. -/
structure Leads (id : Text) (own : Option (Text × ℤ)) (seen : Claims)
    (best : Option (Text × ℤ)) : Prop where
  none_iff : best = none ↔ own = none ∧ ∀ entry ∈ seen, entry.1 = id
  source : ∀ devnode priority, best = some (devnode, priority) → own = some (devnode, priority) ∨
    ∃ entry ∈ seen, entry.1 ≠ id ∧ readClaim entry.2 = some (priority, devnode)
  own_le : ∀ devnode priority devnode' priority', best = some (devnode, priority) →
    own = some (devnode', priority') → priority' ≤ priority
  seen_le : ∀ devnode priority, best = some (devnode, priority) → ∀ entry ∈ seen, entry.1 ≠ id →
    ∀ priority' devnode', readClaim entry.2 = some (priority', devnode') → priority' ≤ priority

theorem Leads.consider {sight : Sight} {id : Text} {own best : Option (Text × ℤ)} {seen : Claims}
    {entry : Text × Text} (h : Leads id own seen best)
    (hread : entry.1 ≠ id → Readable sight entry) :
    Leads id own (seen ++ [entry]) (considerClaim sight id best entry) := by
  unfold considerClaim
  by_cases hid : entry.1 = id
  · rw [if_pos hid]
    constructor
    · rw [h.none_iff, List.forall_mem_append, List.forall_mem_singleton]
      simp only [hid, and_true]
    · intro devnode priority hbest
      refine (h.source devnode priority hbest).imp_right ?_
      rintro ⟨other, hother, hne⟩
      exact ⟨other, List.mem_append_left _ hother, hne⟩
    · exact h.own_le
    · intro devnode priority hbest other hother hne
      rcases List.mem_append.mp hother with hother | hother
      · exact h.seen_le devnode priority hbest other hother hne
      · rw [List.mem_singleton.mp hother] at hne
        exact absurd hid hne
  · obtain ⟨priority₀, devnode₀, hclaim, hexist⟩ := hread hid
    rw [if_neg hid, hclaim]
    dsimp only
    rw [hexist, if_neg (by simp)]
    have hnew : (∀ devnode priority, best = some (devnode, priority) → priority ≤ priority₀) →
        Leads id own (seen ++ [entry]) (some (devnode₀, priority₀)) := by
      intro hgreater
      constructor
      · simp only [List.forall_mem_append, List.forall_mem_singleton, hid, and_false]
        exact iff_false_intro (by simp)
      · rintro devnode priority hbest
        obtain ⟨rfl, rfl⟩ := Prod.mk.inj (Option.some.inj hbest)
        exact Or.inr ⟨entry, by simp, hid, hclaim⟩
      · rintro devnode priority devnode' priority' hbest hown
        obtain ⟨rfl, rfl⟩ := Prod.mk.inj (Option.some.inj hbest)
        cases hold : best with
        | none =>
          rw [(h.none_iff.mp hold).1] at hown
          cases hown
        | some b =>
          exact (h.own_le b.1 b.2 _ _ hold hown).trans (hgreater b.1 b.2 hold)
      · rintro devnode priority hbest other hother hne priority' devnode' hother'
        obtain ⟨rfl, rfl⟩ := Prod.mk.inj (Option.some.inj hbest)
        rcases List.mem_append.mp hother with hother | hother
        · cases hold : best with
          | none => exact absurd ((h.none_iff.mp hold).2 other hother) hne
          | some b =>
            exact (h.seen_le b.1 b.2 hold other hother hne _ _ hother').trans
              (hgreater b.1 b.2 hold)
        · rw [List.mem_singleton.mp hother, hclaim] at hother'
          exact (congrArg Prod.fst (Option.some.inj hother')).ge
    cases hold : best with
    | none =>
      apply hnew
      intro devnode priority hbest
      rw [hold] at hbest
      cases hbest
    | some b =>
      dsimp only
      split
      · rename_i hle
        rw [← hold]
        constructor
        · rw [h.none_iff]
          constructor
          · intro hnone
            rw [h.none_iff.mpr hnone] at hold
            cases hold
          · rintro ⟨-, hall⟩
            exact absurd (hall entry (by simp)) hid
        · intro devnode priority hbest
          refine (h.source devnode priority hbest).imp_right ?_
          rintro ⟨other, hother, hne⟩
          exact ⟨other, List.mem_append_left _ hother, hne⟩
        · exact h.own_le
        · intro devnode priority hbest other hother hne priority' devnode' hother'
          rcases List.mem_append.mp hother with hother | hother
          · exact h.seen_le devnode priority hbest other hother hne _ _ hother'
          · rw [List.mem_singleton.mp hother, hclaim] at hother'
            obtain ⟨rfl, -⟩ := Prod.mk.inj (Option.some.inj hother')
            obtain rfl : b = (devnode, priority) := Option.some.inj (hold.symm.trans hbest)
            exact hle
      · rename_i hlt
        apply hnew
        intro devnode priority hbest
        obtain rfl : b = (devnode, priority) := Option.some.inj (hold.symm.trans hbest)
        exact (not_le.mp hlt).le

theorem leads_foldl {sight : Sight} {id : Text} {entries : Claims}
    (hread : ∀ entry ∈ entries, entry.1 ≠ id → Readable sight entry) (own : Option (Text × ℤ)) :
    Leads id own entries (entries.foldl (considerClaim sight id) own) := by
  induction entries using List.reverseRecOn with
  | nil =>
    constructor
    · simp
    · exact fun devnode priority h => Or.inl h
    · intro devnode priority devnode' priority' hbest hown
      exact (congrArg Prod.snd (Option.some.inj (hown.symm.trans hbest))).le
    · simp
  | append_singleton entries entry ih =>
    rw [List.foldl_append]
    have hprevious := ih fun other hother => hread other (List.mem_append_left _ hother)
    exact hprevious.consider (hread entry (by simp))

/-- The winner is the best claim, where the device's own claim is what the search starts from. -/
theorem best_findPrioritized {sight : Sight} {id : Text} {entries : Claims}
    {own : Option (Text × ℤ)} (hread : ∀ entry ∈ entries, entry.1 ≠ id → Readable sight entry)
    (hown : ∀ devnode priority, own = some (devnode, priority) →
      ∃ entry ∈ entries, readClaim entry.2 = some (priority, devnode))
    (hentry : ∀ entry ∈ entries, entry.1 = id →
      ∃ devnode priority, own = some (devnode, priority) ∧
        readClaim entry.2 = some (priority, devnode)) :
    Best entries (stackDirectoryFindPrioritized sight entries id own) := by
  have hmem : ∀ entry, entry ∈ sight.readDir entries ↔ entry ∈ entries := fun entry =>
    (sight.readDir_perm entries).mem_iff
  have hleads : Leads id own (sight.readDir entries)
      ((sight.readDir entries).foldl (considerClaim sight id) own) :=
    leads_foldl (fun entry h => hread entry ((hmem entry).mp h)) own
  unfold stackDirectoryFindPrioritized
  generalize (sight.readDir entries).foldl (considerClaim sight id) own = best at hleads
  constructor
  · rw [Option.map_eq_none_iff, hleads.none_iff]
    constructor
    · rintro ⟨hnone, hall⟩
      apply List.eq_nil_iff_forall_not_mem.mpr
      intro entry hin
      obtain ⟨devnode, priority, hsome, -⟩ := hentry entry hin (hall entry ((hmem entry).mpr hin))
      rw [hnone] at hsome
      cases hsome
    · rintro rfl
      constructor
      · cases h : own with
        | none => rfl
        | some p =>
          obtain ⟨entry, hin, -⟩ := hown p.1 p.2 h
          exact absurd hin List.not_mem_nil
      · intro entry hin
        exact absurd ((hmem entry).mp hin) List.not_mem_nil
  · intro devnode hwinner
    obtain ⟨⟨devnode', priority⟩, hbest, rfl⟩ := Option.map_eq_some_iff.mp hwinner
    have hsource : ∃ entry ∈ entries, readClaim entry.2 = some (priority, devnode') := by
      rcases hleads.source devnode' priority hbest with h | ⟨entry, hin, -, hclaim⟩
      · exact hown devnode' priority h
      · exact ⟨entry, (hmem entry).mp hin, hclaim⟩
    obtain ⟨entry, hin, hclaim⟩ := hsource
    refine ⟨entry, hin, priority, hclaim, ?_⟩
    intro other hother priority' devnode'' hclaim'
    by_cases hid : other.1 = id
    · obtain ⟨devnode₀, priority₀, hsome, hclaim₀⟩ := hentry other hother hid
      obtain ⟨rfl, rfl⟩ := Prod.mk.inj (Option.some.inj (hclaim₀.symm.trans hclaim'))
      exact hleads.own_le _ _ _ _ hbest hsome
    · exact hleads.seen_le _ _ hbest other ((hmem other).mpr hother) hid _ _ hclaim'

/-! ## The loop over links -/

/-- Links with one spelling for each file below `/dev`. -/
structure Spelled (S : Set Text) : Prop where
  unique : ∀ link ∈ S, ∀ link' ∈ S,
    fileOf (resolveLinkPath link) = fileOf (resolveLinkPath link') →
      stackDirectory (resolveLinkPath link) = stackDirectory (resolveLinkPath link')
  managed : ∀ link ∈ S, ∀ path dir, stackDirectory path = some dir →
    fileOf (resolveLinkPath link) = fileOf path →
      (stackDirectory (resolveLinkPath link)).isSome

/-- The body of the loops that make and withdraw claims. -/
def processLink (sight : Sight) (id devnode : Text) (priority : ℤ) (add : Bool) (store : LinkStore)
    (link : Text) : LinkStore :=
  match stackDirectory (resolveLinkPath link) with
  | some dir => updateLink sight id devnode priority add store (resolveLinkPath link) dir
  | none => applySymlink store (resolveLinkPath link) (if add then some devnode else none)

/-- What the search starts from. -/
def ownClaim (devnode : Text) (priority : ℤ) (add : Bool) : Option (Text × ℤ) :=
  if add then some (devnode, priority) else none

/-- One of the links has the directory. -/
def ListsDir (links : List Text) (dir : Text) : Prop :=
  ∃ link ∈ links, stackDirectory (resolveLinkPath link) = some dir

/-- What the loop over links leaves. -/
structure Looped (sight : Sight) (id devnode : Text) (priority : ℤ) (add : Bool)
    (links : List Text) (store store' : LinkStore) : Prop where
  updated : ∀ dir, ListsDir links dir →
    store'.claims dir = stackDirectoryUpdate (store.claims dir) id devnode priority add
  kept : ∀ dir, ¬ ListsDir links dir → store'.claims dir = store.claims dir
  won : ∀ link ∈ links, ∀ dir, stackDirectory (resolveLinkPath link) = some dir →
    store'.symlink (fileOf (resolveLinkPath link)) = stackDirectoryFindPrioritized sight
      (stackDirectoryUpdate (store.claims dir) id devnode priority add) id
      (ownClaim devnode priority add)
  untouched : ∀ file, (∀ link ∈ links, fileOf (resolveLinkPath link) ≠ file) →
    store'.symlink file = store.symlink file
  db : store'.db = store.db

theorem looped_foldl {S : Set Text} (hS : Spelled S) (sight : Sight) (id devnode : Text)
    (priority : ℤ) (add : Bool) {links : List Text} (hlinks : ∀ link ∈ links, link ∈ S)
    (store : LinkStore) : Looped sight id devnode priority add links store
      (links.foldl (processLink sight id devnode priority add) store) := by
  induction links generalizing store with
  | nil =>
    constructor
    · rintro dir ⟨link, hlink, -⟩
      exact absurd hlink List.not_mem_nil
    · exact fun _ _ => rfl
    · intro link hlink
      exact absurd hlink List.not_mem_nil
    · exact fun _ _ => rfl
    · rfl
  | cons link links ih =>
    obtain ⟨hlink, hrest⟩ := List.forall_mem_cons.mp hlinks
    have hloop := ih hrest (processLink sight id devnode priority add store link)
    rw [List.foldl_cons]
    generalize links.foldl (processLink sight id devnode priority add)
      (processLink sight id devnode priority add store link) = last at hloop
    -- what the first link leaves
    have hclaims : ∀ dir, (processLink sight id devnode priority add store link).claims dir =
        if stackDirectory (resolveLinkPath link) = some dir then
          stackDirectoryUpdate (store.claims dir) id devnode priority add
        else store.claims dir := by
      intro dir
      unfold processLink
      cases hdir : stackDirectory (resolveLinkPath link) with
      | none => simp [applySymlink]
      | some dir' =>
        by_cases heq : dir = dir'
        · simp [updateLink, applySymlink, heq]
        · simp [updateLink, applySymlink, heq, Ne.symm heq]
    have hsymlink : ∀ file, fileOf (resolveLinkPath link) ≠ file →
        (processLink sight id devnode priority add store link).symlink file =
          store.symlink file := by
      intro file hne
      unfold processLink
      cases stackDirectory (resolveLinkPath link) with
      | none => simp [applySymlink, hne.symm]
      | some dir' => simp [updateLink, applySymlink, hne.symm]
    have hupdate : ∀ dir, stackDirectoryUpdate
        ((processLink sight id devnode priority add store link).claims dir) id devnode priority
          add =
          stackDirectoryUpdate (store.claims dir) id devnode priority add := by
      intro dir
      rw [hclaims]
      split
      · exact stackDirectoryUpdate_idem _ _ _ _ _
      · rfl
    constructor
    · rintro dir ⟨link', hmem, hdir⟩
      by_cases hlater : ListsDir links dir
      · rw [hloop.updated dir hlater, hupdate]
      · rcases List.mem_cons.mp hmem with rfl | hmem
        · rw [hloop.kept dir hlater, hclaims, if_pos hdir]
        · exact absurd ⟨link', hmem, hdir⟩ hlater
    · intro dir hnot
      have hlater : ¬ ListsDir links dir := by
        rintro ⟨link', hmem, hdir⟩
        exact hnot ⟨link', List.mem_cons_of_mem _ hmem, hdir⟩
      rw [hloop.kept dir hlater, hclaims, if_neg fun hdir => hnot ⟨link, by simp, hdir⟩]
    · intro link' hmem dir hdir
      by_cases hlater : ∃ other ∈ links,
          fileOf (resolveLinkPath other) = fileOf (resolveLinkPath link')
      · obtain ⟨other, hother, hfile⟩ := hlater
        have hdir' : stackDirectory (resolveLinkPath other) = some dir := by
          rw [hS.unique other (hrest other hother) link' (hlinks link' hmem) hfile, hdir]
        rw [← hfile, hloop.won other hother dir hdir', hupdate]
      · rcases List.mem_cons.mp hmem with rfl | hmem
        · rw [hloop.untouched _ fun other hother heq => hlater ⟨other, hother, heq⟩]
          unfold processLink
          simp [hdir, updateLink, applySymlink, ownClaim]
        · exact absurd ⟨link', hmem, rfl⟩ hlater
    · intro file hne
      obtain ⟨hfirst, hlater⟩ := List.forall_mem_cons.mp hne
      rw [hloop.untouched file hlater, hsymlink file hfirst]
    · rw [hloop.db]
      unfold processLink
      split
      · rfl
      · rfl

/-! ## The entry in the database -/

/-- The links of the entry of a device. -/
def storedSymlinks (db : DeviceDb) (id : Text) : List Text :=
  ((db.file id).map oldSymlinks).getD []

theorem stripPrefix_stripCr_of_ne {c : Char} (hc : c ≠ 'S') (line : Text) :
    stripPrefix "S:".toList (stripCr (c :: line)) = none := by
  apply Option.eq_none_iff_forall_not_mem.mpr
  intro rest hrest
  have hline := stripPrefix_eq_some_iff.mp hrest
  have hle : stripCr (c :: line) <+: c :: line := by
    rw [stripCr]
    split
    · exact List.dropLast_prefix _
    · exact List.prefix_refl _
  rw [hline] at hle
  exact hc (List.cons_prefix_cons.mp hle).1.symm

/-- Lines of another kind have no links. -/
theorem filterMap_stripPrefix_of_ne {lines : List Text}
    (h : ∀ line ∈ lines, ∃ c rest, c ≠ 'S' ∧ line = c :: rest) :
    lines.filterMap (stripPrefix "S:".toList ∘ stripCr) = [] := by
  apply List.filterMap_eq_nil_iff.mpr
  intro line hline
  obtain ⟨c, rest, hc, rfl⟩ := h line hline
  exact stripPrefix_stripCr_of_ne hc rest

/-- Where keys and tags keep to their lines, the links of an entry are those of the event. -/
theorem oldSymlinks_dbLines {env : SortedMap Text Text} {previous : Option Text}
    {result : RuleResult} {visit : Visit env} (hkey : ∀ p ∈ visit.stored, '\n' ∉ p.1)
    (htag : ∀ tag ∈ result.tags, '\n' ∉ tag)
    (hreturn : ∀ link ∈ result.symlinks, '\r' ∉ link) :
    oldSymlinks (unlines (dbLines result (mergedTags previous result.tags) visit)) =
      result.symlinks := by
  have hlinks : (result.symlinks.map ("S:".toList ++ ·)).filterMap
      (stripPrefix "S:".toList ∘ stripCr) = result.symlinks := by
    rw [List.filterMap_map]
    calc result.symlinks.filterMap _ = result.symlinks.filterMap some := by
          apply List.filterMap_congr
          intro link hlink
          have hlast : ("S:".toList ++ link).getLast? ≠ some '\r' := by
            intro heq
            have hmem := List.mem_of_getLast? heq
            rw [List.mem_append] at hmem
            rcases hmem with hmem | hmem
            · exact absurd hmem (by decide)
            · exact hreturn link hlink hmem
          show stripPrefix "S:".toList (stripCr ("S:".toList ++ link)) = some link
          rw [stripCr_of_ne hlast]
          exact stripPrefix_eq_some_iff.mpr rfl
      _ = result.symlinks := List.filterMap_some
  rw [oldSymlinks, textLines_unlines_of_not_mem (newline_not_mem_dbLines hkey htag),
    List.filterMap_map, dbLines]
  simp only [List.append_assoc]
  rw [List.filterMap_append, hlinks, filterMap_stripPrefix_of_ne, List.append_nil]
  intro line hline
  simp only [List.mem_append, List.mem_map] at hline
  rcases hline with ⟨tag, -, rfl⟩ | ⟨tag, -, rfl⟩ | hline | ⟨p, -, rfl⟩ | ⟨p, -, rfl⟩
  · exact ⟨'G', ':' :: tag, by decide, rfl⟩
  · exact ⟨'Q', ':' :: tag, by decide, rfl⟩
  · split at hline
    · exact absurd hline List.not_mem_nil
    · exact ⟨'L', [':', '0'], by decide, List.mem_singleton.mp hline⟩
  · exact ⟨'E', _, by decide, rfl⟩
  · exact ⟨'E', _, by decide, rfl⟩

/-! ## Events -/

/-- What the latest event of a device said. -/
structure Latest where
  node : Option Text
  links : List Text
  priority : ℤ

/-- The latest event of each device that is present. -/
abbrev Present := Text → Option Latest

def Processed.latest (p : Processed) : Latest where
  node := p.event.devnode
  links := p.result.symlinks
  priority := devlinkPriority p.result.options

/-- An event is the latest one of its device, until the device is removed. -/
def record (present : Present) (p : Processed) : Present :=
  Function.update present (deviceId p.event)
    (if p.event.action = "remove".toList then none else some p.latest)

/-- A device is present, and its latest event listed the file. -/
def ListsFile (d : Latest) (file : List Text) : Prop :=
  ∃ link ∈ d.links, fileOf (resolveLinkPath link) = file

/-- The symlinks below `/dev` follow the latest events. -/
def Follows (store : LinkStore) (present : Present) : Prop :=
  ∀ path dir, stackDirectory path = some dir →
    (store.symlink (fileOf path) = none ↔
      ∀ id d, present id = some d → ¬ ListsFile d (fileOf path)) ∧
    ∀ node, store.symlink (fileOf path) = some node →
      ∃ id d, present id = some d ∧ ListsFile d (fileOf path) ∧ d.node = some node ∧
        ∀ id' d', present id' = some d' → ListsFile d' (fileOf path) → d'.priority ≤ d.priority

/-- The node of every device that is present exists while the event is processed. -/
def NodesExist (s : LinkStore × Present) (p : Processed) : Prop :=
  ∀ id d node, record s.2 p id = some d → d.node = some node → p.sight.exist node = true

/-- The nodes of the other devices exist. -/
theorem NodesExist.others {store : LinkStore} {present : Present} {p : Processed}
    (h : NodesExist (store, present) p) (other : Text) (d : Latest) (node : Text)
    (hd : present other = some d) (hne : other ≠ deviceId p.event) (hnode : d.node = some node) :
    p.sight.exist node = true := by
  refine h other d node ?_ hnode
  show record present p other = some d
  rw [record, Function.update_of_ne hne, hd]

/-- The event lists the links of the device again. -/
structure Relists (previous : Option Latest) (p : Processed) : Prop where
  node : p.result.symlinks ≠ [] → p.event.devnode.isSome
  again : ∀ d, previous = some d → ∀ dir, ListsDir d.links dir → ListsDir p.result.symlinks dir

/-- The event withdraws what it does not list. -/
inductive Steady (previous : Option Latest) (p : Processed) : Prop
  | set (haction : p.event.action ∈ settingActions) (h : Relists previous p)
      (hkey : ∀ q ∈ p.visit.stored, '\n' ∉ q.1) (htag : ∀ tag ∈ p.result.tags, '\n' ∉ tag)
  | remove (haction : p.event.action = "remove".toList)
  | unlinked (haction : p.event.action ∉ settingActions) (h : p.result.symlinks = [])
      (hprevious : ∀ d, previous = some d → d.links = [])
  | unknown (haction : p.event.action ∉ settingActions ++ removingActions)
      (h : previous = some p.latest)

/-! ## The invariant -/

/-- The stores hold what the latest events said. -/
structure Tracks (S : Set Text) (store : LinkStore) (present : Present) : Prop where
  claims : ∀ dir id data, (id, data) ∈ store.claims dir ↔ ∃ d node, present id = some d ∧
    d.node = some node ∧ ListsDir d.links dir ∧ data = claimData d.priority node
  node : ∀ id d, present id = some d → d.links ≠ [] → d.node.isSome
  priority : ∀ id d, present id = some d → IsPriority d.priority
  stored : ∀ id, storedSymlinks store.db id = ((present id).map (·.links)).getD []
  links : ∀ id d, present id = some d → ∀ link ∈ d.links, link ∈ S
  best : ∀ link ∈ S, ∀ dir, stackDirectory (resolveLinkPath link) = some dir →
    Best (store.claims dir) (store.symlink (fileOf (resolveLinkPath link)))
  managed : ∀ file, store.symlink file ≠ none → ∃ link ∈ S, fileOf (resolveLinkPath link) = file

variable {S : Set Text} {store store' : LinkStore} {present : Present} {p : Processed}

/-- A claim is the one of the latest event. -/
theorem Tracks.claim_of_mem (h : Tracks S store present) {dir : Text} {entry : Text × Text}
    (hentry : entry ∈ store.claims dir) : ∃ d node, present entry.1 = some d ∧
      d.node = some node ∧ ListsDir d.links dir ∧
      readClaim entry.2 = some (d.priority, node) := by
  obtain ⟨d, node, hd, hnode, hdir, hdata⟩ := (h.claims dir entry.1 entry.2).mp hentry
  exact ⟨d, node, hd, hnode, hdir, hdata ▸ readClaim_claimData (h.priority _ d hd) node⟩

theorem Tracks.claim_unique (h : Tracks S store present) {dir id data data' : Text}
    (hdata : (id, data) ∈ store.claims dir) (hdata' : (id, data') ∈ store.claims dir) :
    data = data' := by
  obtain ⟨d, node, hd, hnode, -, rfl⟩ := (h.claims dir id data).mp hdata
  obtain ⟨d', node', hd', hnode', -, rfl⟩ := (h.claims dir id data').mp hdata'
  obtain rfl : d = d' := Option.some.inj (hd.symm.trans hd')
  obtain rfl : node = node' := Option.some.inj (hnode.symm.trans hnode')
  rfl

/-- A device that lists nothing has no claim. -/
theorem Tracks.no_claim (h : Tracks S store present) {dir id : Text}
    (hnot : ∀ d, present id = some d → ¬ ListsDir d.links dir) (data : Text) :
    (id, data) ∉ store.claims dir := by
  intro hmem
  obtain ⟨d, -, hd, -, hdir, -⟩ := (h.claims dir id data).mp hmem
  exact hnot d hd hdir

/-- The stores behind a loop, where its directories hold all claims of the device. -/
theorem Tracks.looped (hS : Spelled S) (h : Tracks S store present) {sight : Sight}
    {id devnode : Text} {priority : ℤ} {add : Bool} {links : List Text}
    (hloop : Looped sight id devnode priority add links store store')
    (hlinks : ∀ link ∈ links, link ∈ S) (hpriority : IsPriority priority)
    (hexist : ∀ other d node, present other = some d → other ≠ id → d.node = some node →
      sight.exist node = true) :
    (∀ link ∈ S, ∀ dir, stackDirectory (resolveLinkPath link) = some dir →
      Best (store'.claims dir) (store'.symlink (fileOf (resolveLinkPath link)))) ∧
    ∀ file, store'.symlink file ≠ none → ∃ link ∈ S, fileOf (resolveLinkPath link) = file := by
  constructor
  · intro link hlink dir hdir
    by_cases hlist : ListsDir links dir
    · obtain ⟨other, hother, hdir'⟩ := hlist
      have hread : ∀ entry ∈ store.claims dir, entry.1 ≠ id → Readable sight entry := by
        intro entry hentry hne
        obtain ⟨d, node, hd, hnode, -, hclaim⟩ := h.claim_of_mem hentry
        exact ⟨d.priority, node, hclaim, hexist entry.1 d node hd hne hnode⟩
      rw [hloop.updated dir ⟨other, hother, hdir'⟩, fileOf_eq_of_stackDirectory hdir hdir',
        hloop.won other hother dir hdir']
      cases add with
      | true =>
        have hmem : ∀ entry, entry ∈ stackDirectoryUpdate (store.claims dir) id devnode priority
            true ↔ (entry.1 ≠ id ∧ entry ∈ store.claims dir) ∨
              entry = (id, claimData priority devnode) := fun entry =>
          mem_stackDirectoryUpdate_true fun _ _ => h.claim_unique
        have hown := readClaim_claimData hpriority devnode
        apply best_findPrioritized
        · intro entry hentry hne
          rcases (hmem entry).mp hentry with hentry | rfl
          · exact hread entry hentry.2 hne
          · exact absurd rfl hne
        · intro node prio hsome
          obtain ⟨rfl, rfl⟩ := Prod.mk.inj (Option.some.inj hsome)
          exact ⟨_, (hmem _).mpr (Or.inr rfl), hown⟩
        · intro entry hentry hid
          rcases (hmem entry).mp hentry with hentry | rfl
          · exact absurd hid hentry.1
          · exact ⟨devnode, priority, rfl, hown⟩
      | false =>
        apply best_findPrioritized
        · intro entry hentry hne
          exact hread entry (mem_stackDirectoryUpdate_false.mp hentry).2 hne
        · intro node prio hsome
          cases hsome
        · intro entry hentry hid
          exact absurd hid (mem_stackDirectoryUpdate_false.mp hentry).1
    · rw [hloop.kept dir hlist, hloop.untouched]
      · exact h.best link hlink dir hdir
      · intro other hother heq
        have hsame := hS.unique other (hlinks other hother) link hlink heq
        exact hlist ⟨other, hother, hsame.trans hdir⟩
  · intro file hne
    by_cases hfile : ∃ link ∈ links, fileOf (resolveLinkPath link) = file
    · obtain ⟨link, hlink, heq⟩ := hfile
      exact ⟨link, hlinks link hlink, heq⟩
    · rw [hloop.untouched file fun link hlink heq => hfile ⟨link, hlink, heq⟩] at hne
      exact h.managed file hne

/-! ## What an event preserves -/

theorem createDeviceSymlinks_eq (sight : Sight) (store : LinkStore) (event : UEvent)
    {symlinks : List Text} (priority : ℤ) (h : symlinks ≠ [] → event.devnode.isSome) :
    createDeviceSymlinks sight store event symlinks priority = symlinks.foldl
      (processLink sight (deviceId event) (event.devnode.getD []) priority true) store := by
  unfold createDeviceSymlinks
  cases hnode : event.devnode with
  | none =>
    have hnil : symlinks = [] := by
      by_contra hne
      rw [hnode] at h
      exact absurd (h hne) (by simp)
    rw [hnil]
    rfl
  | some devnode => rfl

/-- What is done to a device that goes. -/
def removeDevice (store : LinkStore) (p : Processed) : LinkStore :=
  (storedSymlinks store.db (deviceId p.event)).foldl
    (processLink p.sight (deviceId p.event) [] 0 false) store

theorem processEvent_removing (hsetting : p.event.action ∉ settingActions)
    (hremoving : p.event.action ∈ removingActions) : processEvent store p =
      { removeDevice store p with db := removeDeviceDb (removeDevice store p).db p.event } := by
  unfold processEvent
  rw [if_neg (mt List.contains_iff_mem.mp hsetting), if_pos (List.contains_iff_mem.mpr hremoving)]
  rfl

/-- A device whose record changes, but that lists nothing before and behind the event. -/
theorem Tracks.unlisted (h : Tracks S store present) {id : Text} {d : Latest}
    (hlinks : d.links = []) (hpriority : IsPriority d.priority)
    (hprevious : ∀ d', present id = some d' → d'.links = [])
    (hclaims : store'.claims = store.claims)
    (hsymlink : store'.symlink = store.symlink)
    (hstored : ∀ other, other ≠ id → storedSymlinks store'.db other = storedSymlinks store.db other)
    (hnone : storedSymlinks store'.db id = []) :
    Tracks S store' (Function.update present id (some d)) := by
  have hnot : ∀ dir, ¬ ListsDir d.links dir := by
    rintro dir ⟨link, hlink, -⟩
    rw [hlinks] at hlink
    exact absurd hlink List.not_mem_nil
  have hcases : ∀ other d', Function.update present id (some d) other = some d' →
      (other = id ∧ d' = d) ∨ (other ≠ id ∧ present other = some d') := by
    intro other d' hd'
    by_cases hother : other = id
    · rw [hother, Function.update_self] at hd'
      exact Or.inl ⟨hother, (Option.some.inj hd').symm⟩
    · rw [Function.update_of_ne hother] at hd'
      exact Or.inr ⟨hother, hd'⟩
  constructor
  · intro dir other data
    rw [hclaims]
    by_cases hother : other = id
    · subst hother
      refine iff_of_false (h.no_claim ?_ data) ?_
      · rintro d' hd' ⟨link, hlink, -⟩
        rw [hprevious d' hd'] at hlink
        exact absurd hlink List.not_mem_nil
      · rintro ⟨d', node, hd', -, hdir, -⟩
        rw [Function.update_self] at hd'
        exact hnot dir (Option.some.inj hd' ▸ hdir)
    · rw [Function.update_of_ne hother]
      exact h.claims dir other data
  · intro other d' hd' hne
    rcases hcases other d' hd' with ⟨-, rfl⟩ | ⟨-, hd'⟩
    · exact absurd hlinks hne
    · exact h.node other d' hd' hne
  · intro other d' hd'
    rcases hcases other d' hd' with ⟨-, rfl⟩ | ⟨-, hd'⟩
    · exact hpriority
    · exact h.priority other d' hd'
  · intro other
    by_cases hother : other = id
    · rw [hother, hnone, Function.update_self, Option.map_some, hlinks]
      rfl
    · rw [hstored other hother, h.stored, Function.update_of_ne hother]
  · intro other d' hd' link hlink
    rcases hcases other d' hd' with ⟨-, rfl⟩ | ⟨-, hd'⟩
    · rw [hlinks] at hlink
      exact absurd hlink List.not_mem_nil
    · exact h.links other d' hd' link hlink
  · rw [hclaims, hsymlink]
    exact h.best
  · rw [hsymlink]
    exact h.managed

theorem storedSymlinks_writeDeviceDb (db : DeviceDb) (hkey : ∀ q ∈ p.visit.stored, '\n' ∉ q.1)
    (htag : ∀ tag ∈ p.result.tags, '\n' ∉ tag) (id : Text) :
    storedSymlinks (writeDeviceDb db p.event p.result p.visit) id =
      if id = deviceId p.event then p.result.symlinks else storedSymlinks db id := by
  unfold storedSymlinks writeDeviceDb
  dsimp only
  split
  · rename_i hid
    rw [hid, Function.update_self, Option.map_some, Option.getD_some]
    exact oldSymlinks_dbLines hkey htag p.symlink_return
  · rename_i hid
    rw [Function.update_of_ne hid]

theorem storedSymlinks_removeDeviceDb (db : DeviceDb) (event : UEvent) (id : Text) :
    storedSymlinks (removeDeviceDb db event) id =
      if id = deviceId event then [] else storedSymlinks db id := by
  unfold storedSymlinks removeDeviceDb
  dsimp only
  split
  · rename_i hid
    rw [hid, Function.update_self]
    rfl
  · rename_i hid
    rw [Function.update_of_ne hid]

/-- An event that lists the links again. -/
theorem Tracks.set (hS : Spelled S) (h : Tracks S store present)
    (haction : p.event.action ∈ settingActions) (hlinks : ∀ link ∈ p.result.symlinks, link ∈ S)
    (hexist : NodesExist (store, present) p) (hrelists : Relists (present (deviceId p.event)) p)
    (hkey : ∀ q ∈ p.visit.stored, '\n' ∉ q.1) (htag : ∀ tag ∈ p.result.tags, '\n' ∉ tag) :
    Tracks S (processEvent store p) (record present p) := by
  have hnotRemove : p.event.action ≠ "remove".toList := by
    intro heq
    rw [heq] at haction
    exact absurd haction (by decide)
  have hpriority := isPriority_devlinkPriority p.result.options
  have hloop := looped_foldl hS p.sight (deviceId p.event) (p.event.devnode.getD [])
    (devlinkPriority p.result.options) true hlinks store
  have hrecord : record present p = Function.update present (deviceId p.event) (some p.latest) := by
    rw [record, if_neg hnotRemove]
  have hcases : ∀ other d, record present p other = some d →
      (other = deviceId p.event ∧ d = p.latest) ∨
        (other ≠ deviceId p.event ∧ present other = some d) := by
    intro other d hd
    rw [hrecord] at hd
    by_cases hother : other = deviceId p.event
    · rw [hother, Function.update_self] at hd
      exact Or.inl ⟨hother, (Option.some.inj hd).symm⟩
    · rw [Function.update_of_ne hother] at hd
      exact Or.inr ⟨hother, hd⟩
  obtain ⟨hbest, hmanaged⟩ := h.looped hS hloop hlinks hpriority hexist.others
  unfold processEvent
  rw [if_pos (List.contains_iff_mem.mpr haction)]
  dsimp only
  rw [createDeviceSymlinks_eq p.sight store p.event _ hrelists.node]
  generalize p.result.symlinks.foldl _ store = last at hloop hbest hmanaged
  constructor
  · intro dir other data
    show (other, data) ∈ last.claims dir ↔ _
    have hclaims : (other, data) ∈ last.claims dir ↔
        (other ≠ deviceId p.event ∧ (other, data) ∈ store.claims dir) ∨
          (ListsDir p.result.symlinks dir ∧ (other, data) = (deviceId p.event, claimData
            (devlinkPriority p.result.options) (p.event.devnode.getD []))) := by
      by_cases hlist : ListsDir p.result.symlinks dir
      · rw [hloop.updated dir hlist, mem_stackDirectoryUpdate_true fun _ _ => h.claim_unique]
        simp [hlist]
      · rw [hloop.kept dir hlist]
        constructor
        · intro hmem
          refine Or.inl ⟨?_, hmem⟩
          rintro rfl
          exact h.no_claim (fun d hd hdir => hlist (hrelists.again d hd dir hdir)) data hmem
        · rintro (⟨-, hmem⟩ | ⟨hlist', -⟩)
          · exact hmem
          · exact absurd hlist' hlist
    rw [hclaims, h.claims]
    constructor
    · rintro (⟨hne, d, node, hd, hnode⟩ | ⟨hlist, heq⟩)
      · exact ⟨d, node, by rw [hrecord, Function.update_of_ne hne, hd], hnode⟩
      · obtain ⟨rfl, rfl⟩ := Prod.mk.inj heq
        obtain ⟨link, hlink, hdir⟩ := hlist
        obtain ⟨node, hnode⟩ := Option.isSome_iff_exists.mp
          (hrelists.node (List.ne_nil_of_mem hlink))
        refine ⟨p.latest, node, by rw [hrecord, Function.update_self], hnode,
          ⟨link, hlink, hdir⟩, ?_⟩
        rw [hnode]
        rfl
    · rintro ⟨d, node, hd, hnode, hdir, rfl⟩
      rcases hcases other d hd with ⟨rfl, rfl⟩ | ⟨hne, hd⟩
      · refine Or.inr ⟨hdir, ?_⟩
        have hnode' : p.event.devnode = some node := hnode
        rw [hnode']
        rfl
      · exact Or.inl ⟨hne, d, node, hd, hnode, hdir, rfl⟩
  · intro other d hd hne
    rcases hcases other d hd with ⟨-, rfl⟩ | ⟨-, hd⟩
    · exact hrelists.node hne
    · exact h.node other d hd hne
  · intro other d hd
    rcases hcases other d hd with ⟨-, rfl⟩ | ⟨-, hd⟩
    · exact hpriority
    · exact h.priority other d hd
  · intro other
    show storedSymlinks (writeDeviceDb last.db p.event p.result p.visit) other = _
    rw [storedSymlinks_writeDeviceDb _ hkey htag, hloop.db, hrecord]
    split
    · rename_i hother
      rw [hother, Function.update_self]
      rfl
    · rename_i hother
      rw [Function.update_of_ne hother, h.stored]
  · intro other d hd link hlink
    rcases hcases other d hd with ⟨-, rfl⟩ | ⟨-, hd⟩
    · exact hlinks link hlink
    · exact h.links other d hd link hlink
  · exact hbest
  · exact hmanaged

/-- An event that removes the device. -/
theorem Tracks.remove (hS : Spelled S) (h : Tracks S store present)
    (haction : p.event.action = "remove".toList) (hexist : NodesExist (store, present) p) :
    Tracks S (processEvent store p) (record present p) := by
  have hnotSetting : p.event.action ∉ settingActions := by
    rw [haction]
    decide
  have hremoving : p.event.action ∈ removingActions := by
    rw [haction]
    decide
  have hrecord : record present p = Function.update present (deviceId p.event) none := by
    rw [record, if_pos haction]
  have hpresent : ∀ other d, record present p other = some d →
      other ≠ deviceId p.event ∧ present other = some d := by
    intro other d hd
    rw [hrecord] at hd
    by_cases hother : other = deviceId p.event
    · rw [hother, Function.update_self] at hd
      cases hd
    · rw [Function.update_of_ne hother] at hd
      exact ⟨hother, hd⟩
  -- the links of the entry are those of the latest event
  have hstored := h.stored (deviceId p.event)
  have hlinks : ∀ link ∈ storedSymlinks store.db (deviceId p.event), link ∈ S := by
    intro link hlink
    rw [hstored] at hlink
    cases hd : present (deviceId p.event) with
    | none =>
      rw [hd] at hlink
      exact absurd hlink List.not_mem_nil
    | some d =>
      rw [hd] at hlink
      exact h.links _ d hd link hlink
  have hlisted : ∀ dir d, present (deviceId p.event) = some d → ListsDir d.links dir →
      ListsDir (storedSymlinks store.db (deviceId p.event)) dir := by
    intro dir d hd hdir
    rw [hstored, hd]
    exact hdir
  have hloop := looped_foldl hS p.sight (deviceId p.event) [] 0 false hlinks store
  obtain ⟨hbest, hmanaged⟩ := h.looped hS hloop hlinks ⟨by decide, by decide⟩ hexist.others
  rw [processEvent_removing hnotSetting hremoving]
  change Looped _ _ _ _ _ _ _ (removeDevice store p) at hloop
  change ∀ link ∈ S, ∀ dir, _ → Best ((removeDevice store p).claims dir)
    ((removeDevice store p).symlink _) at hbest
  change ∀ file, (removeDevice store p).symlink file ≠ none → _ at hmanaged
  generalize removeDevice store p = last at hloop hbest hmanaged
  constructor
  · intro dir other data
    show (other, data) ∈ last.claims dir ↔ _
    have hclaims : (other, data) ∈ last.claims dir ↔
        other ≠ deviceId p.event ∧ (other, data) ∈ store.claims dir := by
      by_cases hlist : ListsDir (storedSymlinks store.db (deviceId p.event)) dir
      · rw [hloop.updated dir hlist, mem_stackDirectoryUpdate_false]
      · rw [hloop.kept dir hlist]
        constructor
        · intro hmem
          refine ⟨?_, hmem⟩
          rintro rfl
          exact h.no_claim (fun d hd hdir => hlist (hlisted dir d hd hdir)) data hmem
        · exact And.right
    rw [hclaims, h.claims]
    constructor
    · rintro ⟨hne, d, node, hd, hnode⟩
      exact ⟨d, node, by rw [hrecord, Function.update_of_ne hne, hd], hnode⟩
    · rintro ⟨d, node, hd, hnode⟩
      obtain ⟨hne, hd⟩ := hpresent other d hd
      exact ⟨hne, d, node, hd, hnode⟩
  · exact fun other d hd => h.node other d (hpresent other d hd).2
  · exact fun other d hd => h.priority other d (hpresent other d hd).2
  · intro other
    show storedSymlinks (removeDeviceDb last.db p.event) other = _
    rw [storedSymlinks_removeDeviceDb, hloop.db, hrecord]
    split
    · rename_i hother
      rw [hother, Function.update_self]
      rfl
    · rename_i hother
      rw [Function.update_of_ne hother, h.stored]
  · exact fun other d hd => h.links other d (hpresent other d hd).2
  · exact hbest
  · exact hmanaged

/-- Nothing is withdrawn where nothing was listed. -/
theorem Tracks.steady_unlinked (h : Tracks S store present)
    (haction : p.event.action ∉ settingActions) (hlinks : p.result.symlinks = [])
    (hremove : p.event.action ≠ "remove".toList)
    (hprevious : ∀ d, present (deviceId p.event) = some d → d.links = []) :
    Tracks S (processEvent store p) (record present p) := by
  have hrecord : record present p = Function.update present (deviceId p.event) (some p.latest) := by
    rw [record, if_neg hremove]
  have hnone : storedSymlinks store.db (deviceId p.event) = [] := by
    rw [h.stored]
    cases hd : present (deviceId p.event) with
    | none => rfl
    | some d => exact hprevious d hd
  have hpriority := isPriority_devlinkPriority p.result.options
  rw [hrecord]
  by_cases hremoving : p.event.action ∈ removingActions
  · have hsame : removeDevice store p = store := by
      rw [removeDevice, hnone]
      rfl
    rw [processEvent_removing haction hremoving, hsame]
    apply h.unlisted hlinks hpriority hprevious
    · rfl
    · rfl
    · intro other hother
      exact (storedSymlinks_removeDeviceDb store.db p.event other).trans (if_neg hother)
    · exact (storedSymlinks_removeDeviceDb store.db p.event _).trans (if_pos rfl)
  · unfold processEvent
    rw [if_neg (mt List.contains_iff_mem.mp haction),
      if_neg (mt List.contains_iff_mem.mp hremoving)]
    exact h.unlisted hlinks hpriority hprevious rfl rfl (fun _ _ => rfl) hnone

/-- What an event preserves. -/
theorem Tracks.processEvent (hS : Spelled S) (h : Tracks S store present)
    (hlinks : ∀ link ∈ p.result.symlinks, link ∈ S) (hexist : NodesExist (store, present) p)
    (hsteady : Steady (present (deviceId p.event)) p) :
    Tracks S (processEvent store p) (record present p) := by
  cases hsteady with
  | set haction hrelists hkey htag =>
    exact h.set hS haction hlinks hexist hrelists hkey htag
  | remove haction => exact h.remove hS haction hexist
  | unlinked haction hnil hprevious =>
    by_cases hremove : p.event.action = "remove".toList
    · exact h.remove hS hremove hexist
    · exact h.steady_unlinked haction hnil hremove hprevious
  | unknown haction hsame =>
    rw [List.mem_append, not_or] at haction
    have hremove : p.event.action ≠ "remove".toList := by
      intro heq
      rw [heq] at haction
      exact haction.2 (by decide)
    have hrecord : record present p = present := by
      rw [record, if_neg hremove, ← hsame, Function.update_eq_self]
    unfold Udevd.processEvent
    rw [if_neg (mt List.contains_iff_mem.mp haction.1),
      if_neg (mt List.contains_iff_mem.mp haction.2), hrecord]
    exact h

end OxidizedSystemd.Udevd
