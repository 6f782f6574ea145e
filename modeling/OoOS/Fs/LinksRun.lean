import OoOS.Fs.Links
import OoOS.Lib.Prefixes

/-!
# References along a run

Creating files and directories keeps the references right.  Every hard link makes
them wrong, and unlinking uses an entry after it was destroyed.
-/

namespace OoOS.Fs.Links

open List Option Function Ramfs Bind

variable {s : Ramfs} {parent node fuel : Nat} {what : String} {names : List String}

lemma xunlinkEntry_eq (found : s.find parent what = some node) :
    s.xunlinkEntry parent what node = .error .destroyedTnode := by
  have hd : (s.directoryUnlink parent what).2.readTnode node = .error .destroyedTnode := by
    unfold directoryUnlink
    rw [found]
    unfold readTnode
    simp [update_self]
  have hu : (s.directoryUnlink parent what).1 = true := by
    unfold directoryUnlink
    rw [found]
  unfold xunlinkEntry
  rw [if_pos hu, hd]
  rfl

lemma readTnode_eq_ok {entry : Tnode} :
    s.readTnode node = .ok entry ↔ s.tnodes node = some entry := by
  unfold readTnode
  cases s.tnodes node with
  | none => simp
  | some _ => simp

variable {vnode : Vnode}

lemma readVnode_some {id : Nat} (isVnode : s.vnodes id = some vnode) :
    s.readVnode (some id) = .ok (id, vnode) := by
  unfold readVnode
  simp [isVnode]

lemma entries_of_body {entries : List (String × Nat)}
    (isVnode : s.vnodes node = some vnode) (isBody : vnode.body = .directory entries) :
    s.entries node = some entries := by
  obtain ⟨body, _, _⟩ := vnode
  cases isBody
  unfold Ramfs.entries
  rw [isVnode]

lemma soleDirectory_eq_some (isSole : s.soleDirectory node = .ok (some names)) :
    ∃ tnode id vnode entries, s.readTnode node = .ok tnode ∧
      tnode.node = some id ∧ s.readVnode tnode.node = .ok (id, vnode) ∧
      s.entries id = some entries ∧ names = entries.map Prod.fst := by
  unfold soleDirectory at isSole
  cases ht : s.readTnode node with
  | error _ =>
    rw [ht] at isSole
    cases isSole
  | ok tnode =>
    rw [ht] at isSole
    cases hn : tnode.node with
    | none => simp [hn, bind, Except.bind] at isSole
    | some id =>
      cases hv : s.vnodes id with
      | none => simp [hn, hv, readVnode, bind, Except.bind] at isSole
      | some vnode =>
        simp only [hn, readVnode_some hv, bind, Except.bind] at isSole
        split at isSole
        · cases isSole
        rename_i entries isBody
        split at isSole
        · cases isSole
          refine ⟨tnode, id, vnode, entries, rfl, hn, ?_, entries_of_body hv isBody, rfl⟩
          rw [hn]
          exact readVnode_some hv
        · cases isSole

variable {name : String}

lemma unlinkAll_error (unlink : Ramfs → Nat → String → Except Fault (Reply × Ramfs))
    (isSole : s.soleDirectory node = .ok (some (name :: names)))
    (fails : ∀ dir, (s.find dir name).isSome → ∃ fault, unlink s dir name = .error fault) :
    ∃ fault, unlinkAll unlink node (name :: names) s = .error fault := by
  obtain ⟨_, id, _, entries, ht, _, hv, he, hn⟩ := soleDirectory_eq_some isSole
  have hf : (s.find id name).isSome := by
    cases entries with
    | nil => cases hn
    | cons _ entries =>
      rw [map_cons, cons.injEq] at hn
      unfold find
      rw [he, bind_some, hn.1, lookup_cons, beq_self_eq_true]
      rfl
  obtain ⟨fault, hfau⟩ := fails id hf
  refine ⟨fault, ?_⟩
  unfold unlinkAll
  rw [ht]
  simp [bind, Except.bind, hv, hfau]

lemma xunlink_error :
    ∀ {s : Ramfs} {parent node : Nat} {what : String} {ignoreNonexistent dirRecurse : Bool},
      s.find parent what = some node → ¬ Blocked s node dirRecurse →
      ∃ fault, xunlink fuel s parent what ignoreNonexistent dirRecurse = .error fault := by
  induction fuel with
  | zero => exact fun _ _ => ⟨.endless, rfl⟩
  | succ fuel ih =>
    intro s parent node what ignoreNonexistent dirRecurse found hnb
    unfold xunlink
    rw [found]
    cases hs : s.soleDirectory node with
    | error fault =>
      refine ⟨fault, ?_⟩
      simp [hs, bind, Except.bind]
    | ok sole =>
      cases sole with
      | none =>
        refine ⟨.destroyedTnode, ?_⟩
        simp [hs, bind, Except.bind, xunlinkEntry_eq found]
      | some names =>
        have hnr : ¬ (names ≠ [] ∧ dirRecurse = false) := fun hr => hnb ⟨names, hs, hr⟩
        simp only [hs, bind, Except.bind, if_neg hnr]
        cases dirRecurse with
        | false =>
          refine ⟨.destroyedTnode, ?_⟩
          simp [Bool.false_eq_true, xunlinkEntry_eq found]
        | true =>
          cases names with
          | nil =>
            refine ⟨.destroyedTnode, ?_⟩
            simp [unlinkAll, xunlinkEntry_eq found]
          | cons name names =>
            have fails : ∀ dir, (s.find dir name).isSome →
                ∃ fault, xunlink fuel s dir name true true = .error fault := by
              intro dir hfi
              obtain ⟨_, hc⟩ := isSome_iff_exists.mp hfi
              apply ih hc
              rintro ⟨_, _, _, hfa⟩
              cases hfa
            obtain ⟨fault, hfau⟩ := unlinkAll_error (fun s dir name =>
                xunlink fuel s dir name true true) hs fails
            refine ⟨fault, ?_⟩
            simp [hfau]

lemma xunlink_none {ignoreNonexistent dirRecurse : Bool} (notFound : s.find parent what = none) :
    ∃ reply, xunlink (fuel + 1) s parent what ignoreNonexistent dirRecurse = .ok (reply, s) := by
  unfold xunlink
  rw [notFound]
  dsimp only
  split <;> exact ⟨_, rfl⟩

lemma xunlink_blocked {ignoreNonexistent dirRecurse : Bool}
    (found : s.find parent what = some node) (blocked : Blocked s node dirRecurse) :
    ∃ reply, xunlink (fuel + 1) s parent what ignoreNonexistent dirRecurse = .ok (reply, s) := by
  obtain ⟨_, hs, hr⟩ := blocked
  unfold xunlink
  rw [found]
  simp only [hs, bind, Except.bind, if_pos hr]
  exact ⟨_, rfl⟩

structure Intact (s : Ramfs) : Prop where
  root : 0 < s.vnodeCt
  vnodes : ∀ node, s.vnodeCt ≤ node → s.vnodes node = none
  entries : ∀ dir name tnode, HasEntry s dir name tnode → tnode < s.tnodeCt
  live : ∀ dir name tnode, HasEntry s dir name tnode →
    ∃ entry node, s.tnodes tnode = some entry ∧ entry.node = some node ∧ (s.vnodes node).isSome

structure Gains (s after : Ramfs) (node : Nat) : Prop where
  entries : ∀ dir name tnode, HasEntry after dir name tnode →
    HasEntry s dir name tnode ∨ tnode = s.tnodeCt
  kept : ∀ dir name tnode, HasEntry s dir name tnode → HasEntry after dir name tnode
  gained : ∃ dir name, HasEntry after dir name s.tnodeCt
  tnodes : ∃ name, after.tnodes = update s.tnodes s.tnodeCt (some ⟨some node, name⟩)
  tnodeCt : after.tnodeCt = s.tnodeCt + 1
  vnodeCt : s.vnodeCt ≤ after.vnodeCt
  fresh : ∀ other, after.vnodeCt ≤ other → after.vnodes other = none
  nodes : ∀ other, (s.vnodes other).isSome → (after.vnodes other).isSome
  target : (after.vnodes node).isSome

variable {after : Ramfs}

lemma Gains.pointsAt_iff (gains : Gains s after node) (intact : Intact s) (tnode other : Nat) :
    PointsAt after tnode other ↔ PointsAt s tnode other ∨ tnode = s.tnodeCt ∧ other = node := by
  obtain ⟨entryName, ht⟩ := gains.tnodes
  have hg : after.tnodes s.tnodeCt = some ⟨some node, entryName⟩ := by rw [ht, update_self]
  have isOld {tnode : Nat} (old : tnode ≠ s.tnodeCt) : after.tnodes tnode = s.tnodes tnode := by
    rw [ht, update_of_ne old]
  constructor
  · rintro ⟨⟨dir, name, hen⟩, entry, he, hn⟩
    by_cases isNew : tnode = s.tnodeCt
    · refine .inr ⟨isNew, ?_⟩
      rw [isNew, hg] at he
      cases he
      exact (some.inj hn).symm
    rcases gains.entries dir name tnode hen with had | htc
    · rw [isOld isNew] at he
      exact .inl ⟨⟨dir, name, had⟩, entry, he, hn⟩
    · exact absurd htc isNew
  rintro (⟨⟨dir, name, hen⟩, entry, he, hn⟩ | ⟨isNew, hn⟩)
  · have old := Nat.ne_of_lt (intact.entries dir name tnode hen)
    refine ⟨⟨dir, name, gains.kept dir name tnode hen⟩, entry, ?_, hn⟩
    rw [isOld old]
    exact he
  rw [isNew, hn]
  exact ⟨gains.gained, _, hg, rfl⟩

lemma Gains.of_middle {middle : Ramfs} (gains : Gains middle after node)
    (sameEntries : ∀ dir name tnode, HasEntry middle dir name tnode ↔ HasEntry s dir name tnode)
    (tnodes : middle.tnodes = s.tnodes) (tnodeCt : middle.tnodeCt = s.tnodeCt)
    (vnodeCt : s.vnodeCt ≤ middle.vnodeCt)
    (keepsNodes : ∀ other, (s.vnodes other).isSome → (middle.vnodes other).isSome) :
    Gains s after node := by
  refine ⟨?_, ?_, ?_, ?_, ?_, Nat.le_trans vnodeCt gains.vnodeCt, gains.fresh,
    fun other hl => gains.nodes other (keepsNodes other hl), gains.target⟩
  · intro dir name tnode hen
    rw [← sameEntries, ← tnodeCt]
    exact gains.entries dir name tnode hen
  · intro dir name tnode hen
    exact gains.kept dir name tnode ((sameEntries dir name tnode).mpr hen)
  · rw [← tnodeCt]
    exact gains.gained
  · rw [← tnodes, ← tnodeCt]
    exact gains.tnodes
  rw [← tnodeCt]
  exact gains.tnodeCt

lemma Gains.intact (gains : Gains s after node) (intact : Intact s) : Intact after := by
  obtain ⟨entryName, htn⟩ := gains.tnodes
  refine ⟨Nat.lt_of_lt_of_le intact.root gains.vnodeCt, gains.fresh, ?_, ?_⟩
  · intro dir name tnode hen
    rw [gains.tnodeCt]
    rcases gains.entries dir name tnode hen with had | isNew
    · exact Nat.lt_succ_of_lt (intact.entries dir name tnode had)
    · omega
  intro dir name tnode hen
  by_cases isNew : tnode = s.tnodeCt
  · refine ⟨⟨some node, entryName⟩, node, ?_, rfl, gains.target⟩
    rw [isNew, htn, update_self]
  rcases gains.entries dir name tnode hen with had | htc
  · obtain ⟨entry, target, he, ht, hl⟩ := intact.live dir name tnode had
    refine ⟨entry, target, ?_, ht, gains.nodes target hl⟩
    rw [htn, update_of_ne isNew]
    exact he
  · exact absurd htc isNew

variable {dir : Nat}
variable {other : Nat}

lemma entries_congr
    (sameBody : (after.vnodes other).map Vnode.body = (s.vnodes other).map Vnode.body) :
    after.entries other = s.entries other := by
  unfold entries
  cases ha : after.vnodes other with
  | none =>
    rw [ha] at sameBody
    rw [map_eq_none_iff.mp sameBody.symm]
  | some vnode =>
    obtain ⟨body, _, _⟩ := vnode
    rw [ha, map_some, eq_comm, map_eq_some_iff] at sameBody
    obtain ⟨⟨_, _, _⟩, hb, hbo⟩ := sameBody
    cases hbo
    rw [hb]
    cases body <;> rfl

lemma entries_addReference (ref : Address) (other : Nat) :
    (s.addReference node ref).entries other = s.entries other := by
  apply entries_congr
  unfold addReference
  dsimp only
  by_cases same : other = node
  · rw [same, update_self, Option.map_map]
    rfl
  · rw [update_of_ne same]

lemma entries_setEntries_self {old entries : List (String × Nat)}
    (isDir : s.entries dir = some old) : (s.setEntries dir entries).entries dir = some entries := by
  cases hv : s.vnodes dir with
  | none =>
    unfold Ramfs.entries at isDir
    rw [hv] at isDir
    cases isDir
  | some vnode =>
    have isSet : (s.setEntries dir entries).vnodes dir =
        some { vnode with body := .directory entries } := by
      unfold setEntries
      simp [update_self, hv, map_some]
    exact entries_of_body isSet rfl

lemma entries_setEntries_of_ne (entries : List (String × Nat))
    (isOther : other ≠ dir) : (s.setEntries dir entries).entries other = s.entries other := by
  unfold Ramfs.entries setEntries
  simp [update_of_ne isOther]

variable {tnode : Tnode}

lemma hasEntry_emplace (isDir : s.isDirectory dir)
    (isNew : s.find dir tnode.name = none) (other : Nat) (name : String) (entry : Nat) :
    HasEntry (s.emplace dir tnode).2 other name entry ↔ HasEntry s other name entry ∨
        other = dir ∧ name = tnode.name ∧ entry = s.tnodeCt := by
  obtain ⟨old, isOld⟩ := isSome_iff_exists.mp isDir
  have he : (s.emplace dir tnode).2.entries other =
      if other = dir then some (old ++ [(tnode.name, s.tnodeCt)]) else s.entries other := by
    unfold emplace
    rw [isNew]
    dsimp only
    split
    · rename_i same
      rw [same, isOld]
      exact entries_setEntries_self isOld
    rename_i ho
    exact entries_setEntries_of_ne _ ho
  unfold HasEntry
  rw [he]
  by_cases same : other = dir
  · rw [if_pos same, same, isOld]
    simp [mem_append]
  simp [same]

lemma refs_emplace (s : Ramfs) (dir : Nat) (tnode : Tnode) (other : Nat) :
    ((s.emplace dir tnode).2.vnodes other).map Vnode.refs = (s.vnodes other).map Vnode.refs := by
  unfold emplace
  split
  · rfl
  unfold setEntries
  dsimp only
  by_cases same : other = dir
  · rw [same, update_self, Option.map_map]
    rfl
  · rw [update_of_ne same]

lemma isSome_emplace (s : Ramfs) (dir : Nat) (tnode : Tnode) (other : Nat) :
    ((s.emplace dir tnode).2.vnodes other).isSome = (s.vnodes other).isSome := by
  have hsr := congrArg isSome (refs_emplace s dir tnode other)
  rw [isSome_map, isSome_map] at hsr
  exact hsr

lemma gains_emplace (isDir : s.isDirectory dir)
    (isNew : s.find dir tnode.name = none) (isNode : tnode.node = some node)
    (isLive : (s.vnodes node).isSome) (fresh : ∀ other, s.vnodeCt ≤ other → s.vnodes other = none) :
    Gains s (s.emplace dir tnode).2 node := by
  have he := hasEntry_emplace isDir isNew
  have hs := isSome_emplace s dir tnode
  have ha : (s.emplace dir tnode).2.tnodes = update s.tnodes s.tnodeCt (some tnode) ∧
      (s.emplace dir tnode).2.tnodeCt = s.tnodeCt + 1 ∧
      (s.emplace dir tnode).2.vnodeCt = s.vnodeCt := by
    unfold emplace
    rw [isNew]
    exact ⟨rfl, rfl, rfl⟩
  refine ⟨?_, ?_, ?_, ⟨tnode.name, ?_⟩, ha.2.1, ?_, ?_, ?_, ?_⟩
  · intro other name entry had
    rcases (he other name entry).mp had with old | hg
    · exact .inl old
    · exact .inr hg.2.2
  · intro other name entry had
    exact (he other name entry).mpr (.inl had)
  · exact ⟨dir, tnode.name, (he dir tnode.name s.tnodeCt).mpr (.inr ⟨rfl, rfl, rfl⟩)⟩
  · rw [ha.1, ← isNode]
  · exact Nat.le_of_eq ha.2.2.symm
  · intro other beyond
    rw [ha.2.2] at beyond
    have hnl := hs other
    rw [fresh other beyond, isSome_none] at hnl
    exact isNone_iff_eq_none.mp (isSome_eq_false_iff.mp hnl)
  · intro other hwl
    rw [hs]
    exact hwl
  rw [hs]
  exact isLive

variable {name : String} {body : Body} {tnode : Nat}

lemma hasEntry_of_find (found : s.find parent name = some tnode) :
    HasEntry s parent name tnode := by
  obtain ⟨entries, he, hl⟩ := bind_eq_some_iff.mp found
  refine ⟨entries, he, ?_⟩
  obtain ⟨_, _, hs, _⟩ := lookup_eq_some_iff.mp hl
  rw [hs]
  exact mem_append_right _ mem_cons_self

def Empty : Body → Prop
  | .file => True
  | .directory entries => entries = []

lemma entries_makeNode_of_ne (isOther : other ≠ s.vnodeCt) :
    (s.makeNode body name).entries other = s.entries other := by
  unfold entries makeNode
  simp [update_of_ne isOther]

lemma hasEntry_makeNode (name : String) (intact : Intact s)
    (empty : Empty body) (dir : Nat) (entryName : String) (tnode : Nat) :
    HasEntry (s.makeNode body name) dir entryName tnode ↔ HasEntry s dir entryName tnode := by
  unfold HasEntry
  by_cases isNew : dir = s.vnodeCt
  · have hny : s.entries s.vnodeCt = none := by
      unfold entries
      rw [intact.vnodes s.vnodeCt (Nat.le_refl _)]
    have hne : ∀ entries, (s.makeNode body name).entries s.vnodeCt =
        some entries → entries = [] := by
      intro entries he
      unfold Ramfs.entries makeNode at he
      simp only [update_self] at he
      cases body with
      | file => cases he
      | directory _ =>
        cases he
        exact empty
    rw [isNew, hny]
    constructor
    · rintro ⟨entries, he, hen⟩
      rw [hne entries he] at hen
      cases hen
    rintro ⟨entries, he, _⟩
    cases he
  · rw [entries_makeNode_of_ne isNew]

def referenced (s : Ramfs) (body : Body) (name : String) : Ramfs :=
  (s.makeNode body name).addReference s.vnodeCt (.heap s.tnodeCt)

lemma vnodes_referenced (other : Nat) : (referenced s body name).vnodes other =
    if other = s.vnodeCt then some ⟨body, name, [.heap s.tnodeCt]⟩ else s.vnodes other := by
  unfold referenced addReference makeNode
  simp only [update_self]
  split
  · rename_i isNew
    rw [isNew, update_self]
    rfl
  rename_i isOld
  rw [update_of_ne isOld, update_of_ne isOld]

lemma entries_referenced (other : Nat) :
    (referenced s body name).entries other = (s.makeNode body name).entries other :=
  entries_addReference (.heap s.tnodeCt) other

section

variable (intact : Intact s) (isDir : s.isDirectory parent) (isNew : s.find parent name = none)

include intact isDir isNew

lemma gains_create (empty : Empty body) :
    Gains s ((s.makeNode body name).add parent s.vnodeCt) s.vnodeCt ∧
      ∀ other, (((s.makeNode body name).add parent s.vnodeCt).vnodes other).map Vnode.refs =
        if other = s.vnodeCt then some [.heap s.tnodeCt] else (s.vnodes other).map Vnode.refs := by
  have hnp : parent ≠ s.vnodeCt := by
    intro hno
    obtain ⟨entries, hen⟩ := isSome_iff_exists.mp isDir
    unfold Ramfs.entries at hen
    rw [hno, intact.vnodes s.vnodeCt (Nat.le_refl _)] at hen
    cases hen
  have hn : (s.makeNode body name).vnodeName s.vnodeCt = name := by
    unfold vnodeName makeNode
    simp [update_self]
  have isAdd : (s.makeNode body name).add parent s.vnodeCt =
      ((referenced s body name).emplace parent ⟨some s.vnodeCt, name⟩).2 := by
    unfold add
    rw [hn]
    rfl
  have hsp : (referenced s body name).entries parent = s.entries parent := by
    rw [entries_referenced, entries_makeNode_of_ne hnp]
  have gains : Gains (referenced s body name)
      ((referenced s body name).emplace parent ⟨some s.vnodeCt, name⟩).2 s.vnodeCt := by
    apply gains_emplace
    · unfold isDirectory
      rw [hsp]
      exact isDir
    · unfold find
      rw [hsp]
      exact isNew
    · rfl
    · rw [vnodes_referenced, if_pos rfl]
      rfl
    intro other hbe
    have hb : s.vnodeCt + 1 ≤ other := hbe
    rw [vnodes_referenced, if_neg (by omega)]
    exact intact.vnodes other (by omega)
  have hse (dir : Nat) (entryName : String) (tnode : Nat) :
      HasEntry (referenced s body name) dir entryName tnode ↔ HasEntry s dir entryName tnode := by
    rw [← hasEntry_makeNode name intact empty]
    unfold HasEntry
    rw [entries_referenced]
  rw [isAdd]
  refine ⟨gains.of_middle hse rfl rfl (Nat.le_succ _) ?_, ?_⟩
  · intro other hl
    rw [vnodes_referenced]
    split
    · rfl
    · exact hl
  intro other
  rw [refs_emplace, vnodes_referenced]
  split <;> rfl

lemma Counted.create (counted : Counted s) (empty : Empty body) :
    Counted ((s.makeNode body name).add parent s.vnodeCt) := by
  obtain ⟨gains, hr⟩ := gains_create intact isDir isNew empty
  have isCt : ((s.makeNode body name).add parent s.vnodeCt).vnodeCt = s.vnodeCt + 1 := by
    unfold add emplace
    split <;> rfl
  have hpa := gains.pointsAt_iff intact
  have hny : ∀ tnode, ¬ PointsAt s tnode s.vnodeCt := by
    rintro tnode ⟨⟨dir, entryName, hen⟩, _, he, hn⟩
    obtain ⟨_, _, hf, ht, hl⟩ := intact.live dir entryName tnode hen
    rw [hf] at he
    cases he
    rw [hn] at ht
    cases ht
    rw [intact.vnodes s.vnodeCt (Nat.le_refl _)] at hl
    cases hl
  constructor
  · intro node _ hv address
    have hnr := hr node
    rw [hv, map_some] at hnr
    by_cases hnn : node = s.vnodeCt
    · rw [if_pos hnn, some.injEq] at hnr
      rw [hnr, mem_singleton, hnn]
      constructor
      · intro ha
        exact ⟨s.tnodeCt, ha, (hpa _ _).mpr (.inr ⟨rfl, rfl⟩)⟩
      rintro ⟨tnode, ha, points⟩
      rcases (hpa _ _).mp points with old | hg
      · exact absurd old (hny tnode)
      · rw [ha, hg.1]
    rw [if_neg hnn, eq_comm, map_eq_some_iff] at hnr
    obtain ⟨before, hb, hsr⟩ := hnr
    rw [← hsr, counted.refs node before hb address]
    simp [hpa, hnn, and_false, or_false]
  intro node _ hnro
  have hsl := congrArg isSome (hr node)
  rw [isSome_map] at hsl
  by_cases hnn : node = s.vnodeCt
  · rw [if_pos hnn, isSome_some] at hsl
    rw [hsl, hnn]
    exact ⟨fun _ => ⟨s.tnodeCt, (hpa _ _).mpr (.inr ⟨rfl, rfl⟩)⟩, fun _ => rfl⟩
  rw [if_neg hnn, isSome_map] at hsl
  rw [hsl, counted.deleted node (by omega) hnro]
  simp [hpa, hnn, and_false, or_false]

end

lemma Intact.read (intact : Intact s) (found : s.find parent name = some tnode) :
    ∃ entry node vnode, s.readTnode tnode = .ok entry ∧
      entry.node = some node ∧ s.vnodes node = some vnode ∧
      s.readVnode entry.node = .ok (node, vnode) := by
  obtain ⟨entry, node, he, hn, hl⟩ := intact.live parent name tnode (hasEntry_of_find found)
  obtain ⟨vnode, hv⟩ := isSome_iff_exists.mp hl
  refine ⟨entry, node, vnode, readTnode_eq_ok.mpr he, hn, hv, ?_⟩
  rw [hn]
  exact readVnode_some hv

def Creates (s after : Ramfs) : Prop :=
  after = s ∨ ∃ parent name body, s.isDirectory parent ∧ s.find parent name = none ∧ Empty body ∧
    after = (s.makeNode body name).add parent s.vnodeCt

section

variable (intact : Intact s) (path : String) {parent : Nat} (isDir : s.isDirectory parent)
  (name : String) (create : Bool)

include intact isDir

lemma Intact.openFile :
    ∃ reply after, s.openFile path parent name create = .ok (reply, after) ∧ Creates s after := by
  unfold Ramfs.openFile
  cases found : s.find parent name with
  | some _ =>
    obtain ⟨_, _, _, he, _, _, hv⟩ := intact.read found
    simp only [he, hv, bind, Except.bind]
    split <;> exact ⟨_, s, rfl, .inl rfl⟩
  | none =>
    dsimp only
    split
    · exact ⟨_, _, rfl, .inr ⟨parent, name, .file, isDir, found, trivial, rfl⟩⟩
    · exact ⟨_, s, rfl, .inl rfl⟩

lemma Intact.openDirectory :
    ∃ reply after, s.openDirectory path parent name create =
        .ok (reply, after) ∧ Creates s after := by
  unfold Ramfs.openDirectory
  cases found : s.find parent name with
  | some _ =>
    obtain ⟨entry, node, _, he, _, _, hv⟩ := intact.read found
    simp only [he, hv, bind, Except.bind]
    split <;> exact ⟨_, s, rfl, .inl rfl⟩
  | none =>
    dsimp only
    split
    · exact ⟨_, _, rfl, .inr ⟨parent, name, .directory [], isDir, found, rfl, rfl⟩⟩
    · exact ⟨_, s, rfl, .inl rfl⟩

end

def Unrecorded (s after : Ramfs) : Prop :=
  ∃ node, Gains s after node ∧ ∀ vnode, after.vnodes node = some vnode →
    .heap s.tnodeCt ∈ vnode.refs → ∃ old, s.vnodes node = some old ∧ .heap s.tnodeCt ∈ old.refs

/-- A second link to a node is not recorded in it. -/
lemma Intact.xlink (intact : Intact s) {ogparent tgparent : Nat}
    {ogname tgname : String} (slot : Nat) (isDir : s.isDirectory tgparent)
    (found : s.find ogparent ogname = some tnode) (isNew : s.find tgparent tgname = none) :
    ∃ reply after, s.xlink ogparent ogname tgparent tgname slot =
        .ok (reply, after) ∧ Unrecorded s after := by
  obtain ⟨_, node, vnode, hen, hn, hvn, _⟩ := intact.read found
  have hse : ∀ other, (s.addReference node (.stack slot)).entries other = s.entries other :=
    entries_addReference (.stack slot)
  have hv (other : Nat) : ((s.addReference node (.stack slot)).vnodes other).isSome =
        (s.vnodes other).isSome := by
    unfold addReference
    dsimp only
    by_cases same : other = node
    · rw [same, update_self, isSome_map]
    · rw [update_of_ne same]
  have hsn : (s.addReference node (.stack slot)).find tgparent tgname = none := by
    unfold find
    rw [hse]
    exact isNew
  have gains : Gains (s.addReference node (.stack slot))
      ((s.addReference node (.stack slot)).emplace tgparent ⟨some node, tgname⟩).2 node := by
    apply gains_emplace
    · unfold isDirectory
      rw [hse]
      exact isDir
    · exact hsn
    · rfl
    · rw [hv, hvn]
      rfl
    intro other beyond
    have hnl := hv other
    rw [intact.vnodes other beyond, isSome_none] at hnl
    exact isNone_iff_eq_none.mp (isSome_eq_false_iff.mp hnl)
  have he :
      ((s.addReference node (.stack slot)).emplace tgparent ⟨some node, tgname⟩).1 = true := by
    unfold emplace
    rw [hsn]
  refine ⟨.returned true, ((s.addReference node (.stack slot)).emplace
    tgparent ⟨some node, tgname⟩).2, ?_, node, ?_, ?_⟩
  · unfold Ramfs.xlink directoryLink mklink
    rw [found, isNew]
    simp [hen, hn, bind, Except.bind, he]
  · apply gains.of_middle
    · intro _ _ other
      unfold HasEntry
      rw [hse]
    · rfl
    · rfl
    · exact Nat.le_refl _
    intro other hl
    rw [hv]
    exact hl
  intro after ha hre
  have hr := refs_emplace (s.addReference node (.stack slot)) tgparent ⟨some node, tgname⟩ node
  rw [ha, map_some] at hr
  unfold addReference at hr
  dsimp only at hr
  rw [update_self, hvn, map_some, map_some, some.injEq] at hr
  refine ⟨vnode, hvn, ?_⟩
  rw [hr] at hre
  split at hre
  · exact hre
  rcases mem_cons.mp hre with hs | isOld
  · cases hs
  · exact isOld

/-- A call creates a link, fails, or leaves one unrecorded. -/
lemma Intact.step_cases (intact : Intact s) (call : Call) :
    (Harmless s call ∧ ∃ after, s.step call = .ok after ∧ Creates s after) ∨ (¬ Harmless s call ∧
        ((∃ fault, s.step call = .error fault) ∨
          ∃ after, s.step call = .ok after ∧ Unrecorded s after)) := by
  cases call with
  | openFile path parent name create =>
    refine .inl ⟨trivial, ?_⟩
    unfold step
    dsimp only
    split
    · rename_i isDir
      obtain ⟨reply, after, ho, hc⟩ := intact.openFile path isDir name create
      refine ⟨after, ?_, hc⟩
      rw [ho]
      rfl
    · exact ⟨s, rfl, .inl rfl⟩
  | openDirectory path parent name create =>
    refine .inl ⟨trivial, ?_⟩
    unfold step
    dsimp only
    split
    · rename_i isDir
      obtain ⟨reply, after, ho, hc⟩ := intact.openDirectory path isDir name create
      refine ⟨after, ?_, hc⟩
      rw [ho]
      rfl
    · exact ⟨s, rfl, .inl rfl⟩
  | link ogparent ogname tgparent tgname slot =>
    unfold step
    dsimp only
    split
    · rename_i isDir
      cases found : s.find ogparent ogname with
      | none =>
        refine .inl ⟨fun _ _ => .inl found, s, ?_, .inl rfl⟩
        unfold Ramfs.xlink
        rw [found]
        rfl
      | some tnode =>
        cases taken : s.find tgparent tgname with
        | some other =>
          refine .inl ⟨fun _ _ => .inr (by rw [taken]; rfl), s, ?_, .inl rfl⟩
          unfold Ramfs.xlink
          rw [found, taken]
          rfl
        | none =>
          refine .inr ⟨?_, .inr ?_⟩
          · intro hh
            rcases hh isDir.1 isDir.2 with hm | taken'
            · rw [found] at hm
              cases hm
            rw [taken] at taken'
            cases taken'
          obtain ⟨reply, after, hl, hu⟩ := intact.xlink slot isDir.2 found taken
          refine ⟨after, ?_, hu⟩
          rw [hl]
          rfl
    rename_i notDir
    refine .inl ⟨?_, s, rfl, .inl rfl⟩
    intro isOg isTg
    exact absurd ⟨isOg, isTg⟩ notDir
  | unlink parent what _ dirRecurse =>
    unfold step
    dsimp only
    split
    · cases found : s.find parent what with
      | none =>
        refine .inl ⟨?_, s, ?_, .inl rfl⟩
        · intro tnode hf
          rw [found] at hf
          cases hf
        obtain ⟨reply, hr⟩ := xunlink_none found
        rw [hr]
        rfl
      | some tnode =>
        by_cases hb : Blocked s tnode dirRecurse
        · refine .inl ⟨?_, s, ?_, .inl rfl⟩
          · intro other hf
            rw [found] at hf
            cases hf
            exact hb
          obtain ⟨reply, hr⟩ := xunlink_blocked found hb
          rw [hr]
          rfl
        refine .inr ⟨fun hh => hb (hh tnode found), .inl ?_⟩
        obtain ⟨fault, hfa⟩ := xunlink_error found hb
        refine ⟨fault, ?_⟩
        rw [hfa]
        rfl
    rename_i notDir
    refine .inl ⟨?_, s, rfl, .inl rfl⟩
    intro tnode found
    obtain ⟨_, he, _⟩ := hasEntry_of_find found
    exact absurd (by rw [isDirectory, he]; rfl) notDir

lemma Intact.creates (intact : Intact s) (creates : Creates s after) : Intact after := by
  rcases creates with hs | ⟨_, _, _, isDir, isNew, empty, hm⟩
  · rw [hs]
    exact intact
  rw [hm]
  exact (gains_create intact isDir isNew empty).1.intact intact

lemma Counted.creates (counted : Counted s) (intact : Intact s)
    (creates : Creates s after) : Counted after := by
  rcases creates with hs | ⟨_, _, _, isDir, isNew, empty, hm⟩
  · rw [hs]
    exact counted
  rw [hm]
  exact counted.create intact isDir isNew empty

lemma Intact.step (intact : Intact s) {call : Call} (isAfter : s.step call = .ok after) :
    Intact after := by
  rcases intact.step_cases call with
    ⟨_, next, hn, creates⟩ |
    ⟨_, ⟨fault, isFault⟩ | ⟨next, hn, node, gains, _⟩⟩
  · rw [hn] at isAfter
    cases isAfter
    exact intact.creates creates
  · rw [isFault] at isAfter
    cases isAfter
  rw [hn] at isAfter
  cases isAfter
  exact gains.intact intact

lemma Counted.step_iff (counted : Counted s) (intact : Intact s) (call : Call) :
    (∃ after, s.step call = .ok after ∧ Counted after) ↔ Harmless s call := by
  rcases intact.step_cases call with
    ⟨hh, next, hn, creates⟩ | ⟨hha, hhar⟩
  · refine ⟨fun _ => hh, fun _ => ⟨next, hn, ?_⟩⟩
    exact counted.creates intact creates
  refine ⟨fun hc => ?_, fun hh => absurd hh hha⟩
  obtain ⟨after, ha, hca⟩ := hc
  rcases hhar with
    ⟨fault, isFault⟩ | ⟨next, hn, node, gains, unrecorded⟩
  · rw [isFault] at ha
    cases ha
  rw [hn] at ha
  cases ha
  obtain ⟨vnode, hv⟩ := isSome_iff_exists.mp gains.target
  have hp : PointsAt after s.tnodeCt node := (gains.pointsAt_iff intact _ _).mpr (.inr ⟨rfl, rfl⟩)
  have hr := (hca.refs node vnode hv _).mpr ⟨s.tnodeCt, rfl, hp⟩
  obtain ⟨old, isOld, hwr⟩ := unrecorded vnode hv hr
  obtain ⟨_, ht, ⟨dir, name, he⟩, _⟩ := (counted.refs node old isOld _).mp hwr
  cases ht
  exact absurd (intact.entries dir name _ he) (Nat.lt_irrefl _)

lemma hasEntry_start (dir : Nat) (name : String) (tnode : Nat) :
    ¬ HasEntry start dir name tnode := by
  rintro ⟨entries, he, hen⟩
  unfold Ramfs.entries start at he
  dsimp only at he
  by_cases hr : dir = 0
  · rw [hr, update_self] at he
    cases he
    cases hen
  rw [update_of_ne hr] at he
  cases he

lemma intact_start : Intact start where
  root := Nat.zero_lt_one
  vnodes := by
    intro node hb
    have hnr : node ≠ 0 := Nat.ne_of_gt hb
    unfold start
    simp [update_of_ne hnr]
  entries := fun dir name tnode he => absurd he (hasEntry_start dir name tnode)
  live := fun dir name tnode he => absurd he (hasEntry_start dir name tnode)

lemma counted_start : Counted start := by
  have none : ∀ tnode node, ¬ PointsAt start tnode node := fun tnode node points =>
      hasEntry_start _ _ tnode points.1.choose_spec.choose_spec
  constructor
  · intro node vnode hv _
    have hnr : vnode.refs = [] := by
      unfold start at hv
      dsimp only at hv
      by_cases hr : node = 0
      · rw [hr, update_self] at hv
        cases hv
        rfl
      rw [update_of_ne hr] at hv
      cases hv
    rw [hnr]
    constructor
    · intro isMem
      cases isMem
    rintro ⟨tnode, _, points⟩
    exact absurd points (none tnode node)
  intro node hin hnro
  exact absurd (Nat.lt_one_iff.mp hin) hnro

lemma run_concat (s : Ramfs) (made : List Call) (call : Call) :
    s.run (made ++ [call]) = (s.run made).bind fun after => after.step call := by
  unfold run
  rw [foldlM_append]
  cases made.foldlM step s with
  | error fault => rfl
  | ok after =>
    change foldlM step after [call] = after.step call
    rw [foldlM_cons]
    cases after.step call with
    | error fault => rfl
    | ok _ => rfl

lemma Intact.run {calls : List Call} : ∀ {s : Ramfs}, start.run calls = .ok s → Intact s := by
  induction calls using reverseRecOn with
  | nil =>
    intro s isRun
    cases isRun
    exact intact_start
  | append_singleton made call ih =>
    intro s isRun
    rw [run_concat] at isRun
    cases hb : start.run made with
    | error _ =>
      rw [hb] at isRun
      cases isRun
    | ok _ =>
      rw [hb] at isRun
      exact (ih hb).step isRun

/-- References are right in every state of a run just if no hard link is made and
no unlinking gets as far as an entry. -/
theorem counted_iff_harmless (calls : List Call) :
    (∀ made, made <+: calls → ∃ s, start.run made = .ok s ∧ Counted s) ↔
      ∀ made call, made ++ [call] <+: calls → ∀ s, start.run made = .ok s → Harmless s call := by
  refine (OoOS.Lib.forall_prefix_iff ?_).trans (and_iff_right ⟨start, rfl, counted_start⟩)
  rintro made call - ⟨before, isRun, counted⟩
  rw [run_concat, isRun]
  constructor
  · intro kept s isOk
    cases isOk
    exact (counted.step_iff (Intact.run isRun) call).mp kept
  intro hh
  exact (counted.step_iff (Intact.run isRun) call).mpr (hh before rfl)

def oneFile : Ramfs := (start.makeNode .file "a").add 0 1

/-- Unlinking the file uses its entry after it was destroyed; a link to the file
has an entry that the file does not record. -/
theorem not_counted_unlink_link :
    start.run [.openFile "/a" 0 "a" true, .unlink 0 "a" true false] = .error .destroyedTnode ∧
      ∃ s, start.run [.openFile "/a" 0 "a" true, .link 0 "a" 0 "b" 7] = .ok s ∧ ¬ Counted s := by
  refine ⟨rfl, _, rfl, fun hc => ?_⟩
  have hf : start.step (.openFile "/a" 0 "a" true) = .ok oneFile := rfl
  have hif : Intact oneFile := intact_start.step hf
  have hcf : Counted oneFile := by
    obtain ⟨_, ha, hca⟩ := (counted_start.step_iff intact_start
        (.openFile "/a" 0 "a" true)).mpr trivial
    rw [hf] at ha
    cases ha
    exact hca
  have hh : Harmless oneFile (.link 0 "a" 0 "b" 7) := (hcf.step_iff hif _).mp ⟨_, rfl, hc⟩
  rcases hh rfl rfl with hm | taken
  · cases hm
  · cases taken

/-- After calls that came back, nothing that is opened in a directory meets a
destroyed entry or node. -/
theorem run_opens (calls : List Call) (s : Ramfs) (ran : start.run calls = .ok s)
    (path : String) (parent : Nat) (directory : s.isDirectory parent) (name : String)
    (create : Bool) : (∃ opened, s.openFile path parent name create = .ok opened) ∧
      ∃ opened, s.openDirectory path parent name create = .ok opened := by
  have hin := Intact.run ran
  obtain ⟨_, _, hf, _⟩ := hin.openFile path directory name create
  obtain ⟨_, _, hd, _⟩ := hin.openDirectory path directory name create
  exact ⟨⟨_, hf⟩, _, hd⟩

theorem run_opens_linked : ∃ s, start.run [.openFile "/a" 0 "a" true, .link 0 "a" 0 "b" 7] =
    .ok s ∧ ∃ opened, s.openFile "/b" 0 "b" false = .ok opened :=
  ⟨_, rfl, (run_opens [.openFile "/a" 0 "a" true, .link 0 "a" 0 "b" 7] _ rfl "/b" 0
    (by decide) "b" false).1⟩

end OoOS.Fs.Links
