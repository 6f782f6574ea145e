import Mathlib.Tactic.Ring
import OoOS.Libk.HashTableRun

/-!
# The table of open files

`current_open_files` is a hash set of vnodes by their descriptor numbers, which
are a field of the vnodes themselves: registering a node, making pipes and
closing files all write that field.
-/

namespace OoOS.Fs.FdMap

open List Option Lib Lib.BucketChain Libk HashStore Function

inductive Kind
  | file
  | directory
  | device
  | pipe
  deriving DecidableEq

structure Vnode where
  kind : Kind
  fd : Int

/-- Vnodes are known by their numbers below `vnodeCt`; `opened` are those that
were registered and not closed since. -/
structure Filesystem where
  vnodes : Nat → Vnode
  vnodeCt : Nat
  currentOpenFiles : HashStore Nat
  nextFd : Int
  opened : List Nat

def fdHash (fd : Int) : Nat := (fd % 2 ^ 64).toNat

def start (vnodes : Nat → Vnode) (vnodeCt : Nat) (store : HashStore Nat) : Filesystem where
  vnodes := vnodes
  vnodeCt := vnodeCt
  currentOpenFiles := store.newTable 0 256
  nextFd := 3
  opened := []

namespace Filesystem

variable (s : Filesystem)

def vid (node : Nat) : Int := (s.vnodes node).fd

def setVid (node : Nat) (fd : Int) : Filesystem :=
  { s with
    vnodes := Function.update s.vnodes node { s.vnodes node with fd := fd } }

def findFd (fd : Int) : Option (Option Nat) :=
  (s.currentOpenFiles.find fdHash s.vid 0 fd).map
    (Option.map s.currentOpenFiles.value)

def openCt : Nat := (s.currentOpenFiles.tables 0).elementCount

/-- The loop of `add_fd`: a number that another node has is counted up. -/
def addFdLoop (node : Nat) : (fuel : Nat) → Filesystem → Option Filesystem
  | 0, _ => none
  | fuel + 1, s =>
    match s.findFd (s.vid node) with
    | none => none
    | some none => some s
    | some (some other) =>
      if other = node then some s
      else addFdLoop node fuel (s.setVid node (s.vid node + 1))

def addFd (node : Nat) : Option Filesystem :=
  match addFdLoop node (s.openCt + 1) s with
  | none => none
  | some s =>
    match s.currentOpenFiles.insert fdHash s.vid 0 node with
    | none => none
    | some (_, inserted) => some { s with currentOpenFiles := inserted }

def registerFd (node : Nat) : Option Filesystem :=
  let numbered := if s.vid node < 0 then s.setVid node s.nextFd else s
  match numbered.addFd node with
  | none => none
  | some s =>
    some { s with
      nextFd := s.vid node + 1
      opened := if node ∈ s.opened then s.opened else node :: s.opened }

def unusedFd : (fuel : Nat) → Int → Option Int
  | 0, _ => none
  | fuel + 1, fd =>
    match s.findFd fd with
    | none => none
    | some none => some fd
    | some (some _) => unusedFd fuel (fd + 1)

def makeVnode (kind : Kind) (fd : Int) : Filesystem :=
  { s with
    vnodes := Function.update s.vnodes s.vnodeCt ⟨kind, fd⟩
    vnodeCt := s.vnodeCt + 1 }

/-- The pipe that the table of pipes has for a number, or a new one.  What that
table finds is left open: any pipe that has the number. -/
def pipeAt (found : Option Nat) (fd : Int) : Filesystem × Nat :=
  match found with
  | none => (s.makeVnode .pipe fd, s.vnodeCt)
  | some pipe =>
    if pipe < s.vnodeCt ∧ (s.vnodes pipe).kind = .pipe ∧ s.vid pipe = fd then
      (s, pipe)
    else (s.makeVnode .pipe fd, s.vnodeCt)

def mkpipeEnd (found : Option Nat) : Option Filesystem :=
  match s.unusedFd (s.openCt + 1) s.nextFd with
  | none => none
  | some fd => (s.pipeAt found fd).1.registerFd (s.pipeAt found fd).2

def mkpipe (first second : Option Nat) : Option Filesystem :=
  (s.mkpipeEnd first).bind fun s => s.mkpipeEnd second

/-- `on_close`, which returns at once for a device. -/
def onClose (node : Nat) : Option Filesystem :=
  if (s.vnodes node).kind = .device then some s
  else
    match s.currentOpenFiles.eraseKey fdHash s.vid 0 (s.vid node) with
    | none => none
    | some (_, erased) => some { s with currentOpenFiles := erased, nextFd := s.vid node }

def closeFile (node : Nat) : Option Filesystem :=
  match s.onClose node with
  | none => none
  | some s =>
    some { s.setVid node (-1) with
      opened := s.opened.filter fun other => other ≠ node }

end Filesystem

/-- A new node gets the next number or, as devices do, one from the caller. -/
inductive Event
  | makeNode (kind : Kind) (fd : Option Int)
  | registerFd (node : Nat)
  | mkpipe (first second : Option Nat)
  | closeFile (node : Option Nat)

namespace Filesystem

variable (s : Filesystem)

/-- Only nodes that exist can be registered, and only files closed. -/
def step : Event → Option Filesystem
  | .makeNode kind none => some { s.makeVnode kind s.nextFd with nextFd := s.nextFd + 1 }
  | .makeNode kind (some fd) => some (s.makeVnode kind fd)
  | .registerFd node => if node < s.vnodeCt then s.registerFd node else some s
  | .mkpipe first second => s.mkpipe first second
  | .closeFile none => some s
  | .closeFile (some node) =>
    if node < s.vnodeCt ∧ (s.vnodes node).kind ≠ .directory then
      s.closeFile node
    else some s

def run : List Event → Filesystem → Option Filesystem
  | [], s => some s
  | event :: events, s => (s.step event).bind (run events)

end Filesystem

/-- The nodes in the table have different numbers, and a lookup finds the open
node with a number and nothing else. -/
structure Correct (s : Filesystem) : Prop where
  distinct : ∃ chain, Linked HashLink.node s.currentOpenFiles.next (.root 0)
      chain ∧
    (chain.map fun n => s.vid (s.currentOpenFiles.value n)).Nodup
  finds : ∀ fd, ∃ found, s.findFd fd = some found ∧
    ∀ node, found = some node ↔ node ∈ s.opened ∧ s.vid node = fd

/-- At most 254 others are open, and a file that is closed is open or has a number
of its own. -/
def Guard (s : Filesystem) : Event → Prop
  | .makeNode _ _ => True
  | .registerFd node => node ∉ s.opened → s.opened.length < 255
  | .mkpipe _ _ => s.opened.length < 254
  | .closeFile none => True
  | .closeFile (some node) =>
    if (s.vnodes node).kind = .device then node ∉ s.opened
    else node ∈ s.opened ∨ 0 ≤ s.vid node ∧ ∀ other ∈ s.opened, s.vid other ≠ s.vid node

def Guarded : List Event → Filesystem → Prop
  | [], _ => True
  | event :: events, s => Guard s event ∧ ∀ after, s.step event = some after → Guarded events after

structure Sound (s : Filesystem) (chain : List Nat) : Prop where
  wellFormed : s.currentOpenFiles.WellFormed fdHash s.vid 0 chain
  perm : (chain.map s.currentOpenFiles.value).Perm s.opened
  known : ∀ node ∈ s.opened, node < s.vnodeCt
  numbers : ∀ node ∈ s.opened, 0 ≤ s.vid node
  next : 0 ≤ s.nextFd
  limits : s.currentOpenFiles.limits 0 = (256, 1, 1)

variable {s : Filesystem} {chain : List Nat}

section

variable (sound : Sound s chain)

include sound

lemma Sound.keys : (s.opened.map s.vid).Nodup := by
  have keys := sound.wellFormed.keys
  rw [← (sound.perm.map s.vid).nodup_iff, List.map_map]
  exact keys

lemma Sound.eq_of_vid {node other : Nat} (isOpen : node ∈ s.opened)
    (otherOpen : other ∈ s.opened) (sameVid : s.vid node = s.vid other) : node = other :=
  inj_on_of_nodup_map sound.keys isOpen otherOpen sameVid

lemma Sound.openCt : s.openCt = s.opened.length := by
  rw [← sound.perm.length_eq, length_map]
  exact sound.wellFormed.count

lemma Sound.findFd (fd : Int) :
    s.findFd fd = some (s.opened.find? fun node => fd = s.vid node) := by
  obtain ⟨_, hf, hn⟩ := sound.wellFormed.find_of_perm sound.perm fd
  unfold Filesystem.findFd
  rw [hf, map_some, hn]

lemma Sound.findFd_cases (fd : Int) :
    (∃ node ∈ s.opened, s.vid node = fd ∧ s.findFd fd = some (some node)) ∨
      s.findFd fd = some none ∧ ∀ node ∈ s.opened, s.vid node ≠ fd := by
  rw [sound.findFd]
  cases found : s.opened.find? fun node => decide (fd = s.vid node) with
  | none =>
    refine .inr ⟨rfl, fun node ho isFd => ?_⟩
    exact find?_eq_none.mp found node ho (decide_eq_true isFd.symm)
  | some node =>
    have isHit := find?_some found
    have isFd := of_decide_eq_true isHit
    exact .inl ⟨node, mem_of_find?_eq_some found, isFd.symm, rfl⟩

lemma Sound.correct : Correct s := by
  refine ⟨⟨chain, sound.wellFormed.path, sound.wellFormed.keys⟩, ?_⟩
  intro fd
  rcases sound.findFd_cases fd with
    ⟨node, ho, isFd, hf⟩ | ⟨hf, notUsed⟩
  · refine ⟨some node, hf, fun other => ⟨?_, ?_⟩⟩
    · intro same
      cases same
      exact ⟨ho, isFd⟩
    intro hoo
    rw [sound.eq_of_vid ho hoo.1 (isFd.trans hoo.2.symm)]
  refine ⟨none, hf, fun other => ⟨fun same => (nomatch same), ?_⟩⟩
  intro hoo
  exact absurd hoo.2 (notUsed other hoo.1)

end

variable {node : Nat}

namespace Filesystem

lemma vid_setVid_self (s : Filesystem) (node : Nat) (fd : Int) :
    (s.setVid node fd).vid node = fd := by
  unfold vid setVid
  simp [update_self]

lemma vid_setVid_of_ne (s : Filesystem) {other : Nat} (fd : Int)
    (isOther : other ≠ node) : (s.setVid node fd).vid other = s.vid other := by
  unfold vid setVid
  simp [update_of_ne isOther]

lemma setVid_setVid (s : Filesystem) (node : Nat) (first second : Int) :
    (s.setVid node first).setVid node second = s.setVid node second := by
  unfold setVid
  simp [update_self, update_idem]

lemma setVid_vid (s : Filesystem) (node : Nat) : s.setVid node (s.vid node) = s := by
  unfold setVid vid
  rw [update_eq_self]

end Filesystem

lemma Sound.congr (sound : Sound s chain) {vnodes : Nat → Vnode}
    {vnodeCt : Nat} {nextFd : Int} (isNext : 0 ≤ nextFd)
    (sameVid : ∀ node ∈ s.opened, (vnodes node).fd = s.vid node) (more : s.vnodeCt ≤ vnodeCt) :
    Sound { s with vnodes := vnodes, vnodeCt := vnodeCt, nextFd := nextFd }
      chain := by
  refine ⟨?_, sound.perm, ?_, ?_, isNext, sound.limits⟩
  · refine sound.wellFormed.frame (fun _ _ => rfl) ?_ rfl rfl le_rfl le_rfl
    intro n hno
    exact sameVid _ (sound.perm.subset (mem_map_of_mem hno))
  · intro node ho
    exact lt_of_lt_of_le (sound.known node ho) more
  intro node ho
  have hn := sound.numbers node ho
  rw [← sameVid node ho] at hn
  exact hn

lemma Sound.setVid (sound : Sound s chain) (notOpen : node ∉ s.opened)
    (fd : Int) : Sound (s.setVid node fd) chain := by
  apply sound.congr sound.next
  · intro _ ho
    exact s.vid_setVid_of_ne fd (fun same => notOpen (same ▸ ho))
  · exact le_rfl

lemma Sound.makeVnode (sound : Sound s chain) (kind : Kind) (fd : Int) :
    Sound (s.makeVnode kind fd) chain := by
  apply sound.congr sound.next
  · intro other ho
    rw [update_of_ne (ne_of_lt (sound.known other ho))]
    rfl
  · exact Nat.le_succ _

def above (s : Filesystem) (fd : Int) : Nat := s.opened.countP fun node => fd ≤ s.vid node

lemma above_succ_lt {fd : Int} (isOpen : node ∈ s.opened)
    (isFd : s.vid node = fd) : above s (fd + 1) < above s fd := by
  unfold above
  rw [countP_eq_length_filter, countP_eq_length_filter]
  have hs : List.Sublist (s.opened.filter fun node => decide (fd + 1 ≤ s.vid node))
      (s.opened.filter fun node => decide (fd ≤ s.vid node)) := by
    apply monotone_filter_right
    intro _ ha
    have ha := of_decide_eq_true ha
    exact decide_eq_true (by omega)
  refine Nat.lt_of_le_of_ne hs.length_le (fun same => ?_)
  have isMem : node ∈ s.opened.filter fun node => decide (fd ≤ s.vid node) :=
    mem_filter.mpr ⟨isOpen, decide_eq_true (Int.le_of_eq isFd.symm)⟩
  rw [← hs.eq_of_length same] at isMem
  have ha := of_decide_eq_true (mem_filter.mp isMem).2
  omega

lemma above_le (s : Filesystem) (fd : Int) : above s fd ≤ s.opened.length := countP_le_length

lemma Sound.addFdLoop (notOpen : node ∉ s.opened) {fuel : Nat} :
    ∀ {fd : Int}, Sound (s.setVid node fd) chain → above (s.setVid node fd) fd < fuel →
      ∃ unused, Filesystem.addFdLoop node fuel (s.setVid node fd) =
          some (s.setVid node unused) ∧ fd ≤ unused ∧ ∀ other ∈ s.opened, s.vid other ≠ unused := by
  induction fuel with
  | zero => exact fun _ he => absurd he (Nat.not_lt_zero _)
  | succ fuel ih =>
    intro fd sound he
    unfold Filesystem.addFdLoop
    rw [Filesystem.vid_setVid_self]
    rcases sound.findFd_cases fd with
      ⟨other, hop, isFd, hf⟩ | ⟨hf, hnu⟩
    · have ho : other ≠ node := fun same => notOpen (same ▸ hop)
      have fewer := above_succ_lt hop isFd
      have next := sound.setVid notOpen (fd + 1)
      rw [Filesystem.setVid_setVid] at next
      have hsa : above (s.setVid node (fd + 1)) (fd + 1) = above (s.setVid node fd) (fd + 1) := by
        apply countP_congr
        intro any isAny
        have hnn : any ≠ node := fun same => notOpen (same ▸ isAny)
        rw [s.vid_setVid_of_ne _ hnn, s.vid_setVid_of_ne _ hnn]
      rw [hf]
      dsimp only
      rw [if_neg ho, Filesystem.setVid_setVid]
      obtain ⟨unused, hl, ha, hnu⟩ := ih next (by omega)
      exact ⟨unused, hl, by omega, hnu⟩
    rw [hf]
    refine ⟨fd, rfl, Int.le_refl fd, fun other hop isFd => ?_⟩
    have hnn : other ≠ node := fun same => notOpen (same ▸ hop)
    apply hnu other hop
    rw [s.vid_setVid_of_ne _ hnn]
    exact isFd

lemma Sound.unusedFd (sound : Sound s chain) {fuel : Nat} :
    ∀ {fd : Int}, above s fd < fuel → ∃ unused, s.unusedFd fuel fd = some unused ∧
        ∀ other ∈ s.opened, s.vid other ≠ unused := by
  induction fuel with
  | zero => exact fun he => absurd he (Nat.not_lt_zero _)
  | succ fuel ih =>
    intro fd he
    unfold Filesystem.unusedFd
    rcases sound.findFd_cases fd with
      ⟨other, ho, isFd, hf⟩ | ⟨hf, notUsed⟩
    · have fewer := above_succ_lt ho isFd
      rw [hf]
      exact ih (by omega)
    rw [hf]
    exact ⟨fd, rfl, notUsed⟩

lemma Sound.needRehash (sound : Sound s chain) {added : Nat}
    (few : s.opened.length + added < 256) : s.currentOpenFiles.needRehash 0 added = false := by
  have hl := sound.limits
  have hc := sound.openCt
  unfold HashStore.limits at hl
  unfold Filesystem.openCt at hc
  simp only [Prod.mk.injEq] at hl
  unfold HashStore.needRehash
  simp only [hl.1, hl.2.1, hl.2.2, hc]
  simp only [Bool.or_eq_false_iff, decide_eq_false_iff_not]
  omega

lemma Sound.insert (sound : Sound s chain) (few : node ∉ s.opened → s.opened.length < 255)
    (unused : ∀ other ∈ s.opened, other ≠ node → s.vid other ≠ s.vid node)
    (isKnown : node < s.vnodeCt) (isNumber : 0 ≤ s.vid node) :
    ∃ result inserted longer, s.currentOpenFiles.insert fdHash s.vid 0 node =
        some (result, inserted) ∧
      Sound { s with
        currentOpenFiles := inserted
        nextFd := s.vid node + 1
        opened := if node ∈ s.opened then s.opened else node :: s.opened }
        longer := by
  have hnr : s.currentOpenFiles.find fdHash s.vid 0 (s.vid node) =
      some none → s.currentOpenFiles.needRehash 0 1 = false := by
    intro hf
    have hno : node ∉ s.opened := by
      intro hop
      have found := sound.findFd (s.vid node)
      unfold Filesystem.findFd at found
      rw [hf] at found
      have hnon := some.inj found.symm
      exact find?_eq_none.mp hnon node hop (decide_eq_true rfl)
    have fits := few hno
    exact sound.needRehash (by omega)
  obtain ⟨result, inserted, longer, hin, wf, perm⟩ :=
    sound.wellFormed.insert node (fun hf rehash => absurd (hnr hf) (by rw [rehash]; decide))
  refine ⟨result, inserted, longer, hin, wf, ?_, ?_, ?_, ?_, ?_⟩
  · refine (perm.trans (perm_insertValue sound.perm node)).trans ?_
    unfold insertValue
    by_cases hop : node ∈ s.opened
    · rw [if_pos hop, if_pos]
      exact any_eq_true.mpr ⟨node, hop, decide_eq_true rfl⟩
    rw [if_neg hop, if_neg]
    intro hus
    obtain ⟨other, hoo, hsv⟩ := any_eq_true.mp hus
    have hnn : other ≠ node := fun same => hop (same ▸ hoo)
    exact unused other hoo hnn (of_decide_eq_true hsv).symm
  · intro other ho
    split at ho
    · exact sound.known other ho
    rcases mem_cons.mp ho with hh | hop
    · rw [hh]
      exact isKnown
    · exact sound.known other hop
  · intro other ho
    split at ho
    · exact sound.numbers other ho
    rcases mem_cons.mp ho with hh | hop
    · rw [hh]
      exact isNumber
    · exact sound.numbers other hop
  · exact Int.le_add_one isNumber
  rw [sound.wellFormed.limits_insert hnr hin]
  exact sound.limits

/-- The loop finds a number that no open node has. -/
lemma Sound.numbered (sound : Sound s chain) (node : Nat) :
    ∃ fd, Filesystem.addFdLoop node (s.openCt + 1)
          (if s.vid node < 0 then s.setVid node s.nextFd else s) =
        some (s.setVid node fd) ∧ 0 ≤ fd ∧ (∀ other ∈ s.opened, other ≠ node → s.vid other ≠ fd) ∧
      Sound (s.setVid node fd) chain := by
  by_cases ho : node ∈ s.opened
  · have hn := sound.numbers node ho
    have hf : s.findFd (s.vid node) = some (some node) := by
      rcases sound.findFd_cases (s.vid node) with
        ⟨other, hoo, hsv, hf⟩ | ⟨_, hnu⟩
      · rw [hf, sound.eq_of_vid hoo ho hsv]
      · exact absurd rfl (hnu node ho)
    refine ⟨s.vid node, ?_, hn, ?_, ?_⟩
    · rw [if_neg (by omega), Filesystem.setVid_vid]
      unfold Filesystem.addFdLoop
      rw [hf]
      exact if_pos rfl
    · intro other hoo hnn hsv
      exact hnn (sound.eq_of_vid hoo ho hsv)
    rw [Filesystem.setVid_vid]
    exact sound
  have hs : (if s.vid node < 0 then s.setVid node s.nextFd else s) =
      s.setVid node (if s.vid node < 0 then s.nextFd else s.vid node) := by
    split
    · rfl
    · rw [Filesystem.setVid_vid]
  have hn : 0 ≤ if s.vid node < 0 then s.nextFd else s.vid node := by
    have hne := sound.next
    split
    · exact hne
    · omega
  generalize (if s.vid node < 0 then s.nextFd else s.vid node) = fd at *
  have he := above_le (s.setVid node fd) fd
  rw [hs, sound.openCt]
  obtain ⟨unused, hl, ha, hnu⟩ := Sound.addFdLoop ho (sound.setVid ho fd) (Nat.lt_succ_of_le he)
  refine ⟨unused, hl, by omega, ?_, sound.setVid ho unused⟩
  exact fun other hoo _ => hnu other hoo

section

variable (sound : Sound s chain)

include sound

lemma Sound.registerFd (isKnown : node < s.vnodeCt)
    (few : node ∉ s.opened → s.opened.length < 255) :
    ∃ after longer, s.registerFd node = some after ∧ Sound after longer ∧ after.opened =
        if node ∈ s.opened then s.opened else node :: s.opened := by
  obtain ⟨fd, hl, hn, hu, kept⟩ := sound.numbered node
  have isVid := s.vid_setVid_self node fd
  obtain ⟨_, _, longer, hin, sound⟩ := kept.insert few (fun other hoo hnn => by
        rw [isVid, s.vid_setVid_of_ne fd hnn]
        exact hu other hoo hnn)
      isKnown (by rw [isVid]; exact hn)
  have hsc : (if s.vid node < 0 then s.setVid node s.nextFd else s).openCt = s.openCt := by
    split <;> rfl
  refine ⟨_, longer, ?_, sound, rfl⟩
  unfold Filesystem.registerFd Filesystem.addFd
  dsimp only
  rw [hsc, hl]
  dsimp only
  rw [hin]
  rfl

lemma Sound.mkpipeEnd (found : Option Nat) (few : s.opened.length < 255) :
    ∃ after longer, s.mkpipeEnd found = some after ∧ Sound after longer ∧
      after.opened.length = s.opened.length + 1 := by
  have he := above_le s s.nextFd
  obtain ⟨fd, hu, hnu⟩ := sound.unusedFd (Nat.lt_succ_of_le he)
  have hm : ∃ node, s.pipeAt found fd = (s.makeVnode .pipe fd, s.vnodeCt) ∨
      s.pipeAt found fd = (s, node) ∧ node < s.vnodeCt ∧ s.vid node = fd := by
    unfold Filesystem.pipeAt
    cases found with
    | none => exact ⟨0, .inl rfl⟩
    | some pipe =>
      refine ⟨pipe, ?_⟩
      dsimp only
      split
      · rename_i isPipe
        exact .inr ⟨rfl, isPipe.1, isPipe.2.2⟩
      · exact .inl rfl
  unfold Filesystem.mkpipeEnd
  rw [sound.openCt, hu]
  dsimp only
  obtain ⟨node, isNew | ⟨isOld, hk, isFd⟩⟩ := hm
  · have hno : s.vnodeCt ∉ s.opened := fun ho =>
      lt_irrefl _ (sound.known _ ho)
    rw [isNew]
    obtain ⟨after, longer, ha, kept, opened⟩ :=
      (sound.makeVnode .pipe fd).registerFd (Nat.lt_succ_self _) (fun _ => few)
    refine ⟨after, longer, ha, kept, ?_⟩
    rw [opened]
    exact congrArg length (if_neg hno)
  have hno : node ∉ s.opened := fun ho => hnu node ho isFd
  rw [isOld]
  obtain ⟨after, longer, ha, kept, opened⟩ := sound.registerFd hk (fun _ => few)
  refine ⟨after, longer, ha, kept, ?_⟩
  rw [opened, if_neg hno, length_cons]

lemma Sound.mkpipe (first second : Option Nat) (few : s.opened.length < 254)
    : ∃ after longer, s.mkpipe first second = some after ∧ Sound after longer := by
  obtain ⟨_, _, hm, kept, _⟩ := sound.mkpipeEnd first (by omega)
  obtain ⟨after, longer, ha, hka, _⟩ := kept.mkpipeEnd second (by omega)
  refine ⟨after, longer, ?_, hka⟩
  unfold Filesystem.mkpipe
  rw [hm]
  exact ha

lemma Sound.closeDevice (isDevice : (s.vnodes node).kind = .device)
    (notOpen : node ∉ s.opened) : ∃ after, s.closeFile node = some after ∧ Sound after chain := by
  have hso : s.opened.filter (fun other => decide (other ≠ node)) = s.opened := by
    rw [filter_eq_self]
    intro other ho
    exact decide_eq_true (fun same => notOpen (same ▸ ho))
  refine ⟨s.setVid node (-1), ?_, sound.setVid notOpen (-1)⟩
  unfold Filesystem.closeFile Filesystem.onClose
  rw [if_pos isDevice]
  dsimp only
  rw [hso]
  rfl

end

/-- Closing takes the node out of the map. -/
lemma Sound.closeFile (sound : Sound s chain) (notDevice : (s.vnodes node).kind ≠ .device)
    (isSafe : node ∈ s.opened ∨ 0 ≤ s.vid node ∧ ∀ other ∈ s.opened, s.vid other ≠ s.vid node) :
    ∃ after shorter, s.closeFile node = some after ∧ Sound after shorter := by
  obtain ⟨_, table, shorter, he, wf, contents⟩ := sound.wellFormed.eraseKey (s.vid node)
  have hn : 0 ≤ s.vid node := by
    rcases isSafe with hop | hf
    · exact sound.numbers node hop
    · exact hf.1
  -- the node itself is the only open one with its number
  have hsf : s.opened.filter (fun other => decide (s.vid node ≠ s.vid other)) =
      s.opened.filter (fun other => decide (other ≠ node)) := by
    apply filter_congr
    intro other hoo
    rcases isSafe with hop | hf
    · rw [decide_eq_decide]
      refine ⟨fun hd same => hd (by rw [same]), ?_⟩
      intro hd same
      exact hd (sound.eq_of_vid hoo hop same.symm)
    have hd := hf.2 other hoo
    rw [decide_eq_true hd.symm, decide_eq_true]
    intro same
    exact hd (by rw [same])
  have hu : ∀ other ∈ s.opened.filter (fun other => decide (other ≠ node)),
      other ∈ s.opened ∧ (s.setVid node (-1)).vid other = s.vid other := by
    intro other ho
    have hk := mem_filter.mp ho
    exact ⟨hk.1, s.vid_setVid_of_ne (-1) (of_decide_eq_true hk.2)⟩
  have perm : (shorter.map table.value).Perm
      (s.opened.filter fun other => decide (other ≠ node)) := by
    rw [contents, ← hsf]
    exact sound.perm.filter _
  have hc : s.closeFile node = some { s.setVid node (-1) with
        currentOpenFiles := table
        nextFd := s.vid node
        opened := s.opened.filter fun other => decide (other ≠ node) } := by
    unfold Filesystem.closeFile Filesystem.onClose
    rw [if_neg notDevice, he]
    rfl
  refine ⟨_, shorter, hc, ?_, perm, ?_, ?_, hn, ?_⟩
  · refine wf.frame (fun _ _ => rfl) ?_ rfl rfl le_rfl le_rfl
    intro n hno
    exact (hu _ (perm.subset (mem_map_of_mem hno))).2
  · intro other ho
    exact sound.known other (hu other ho).1
  · intro other ho
    have hk := hu other ho
    exact hk.2.symm ▸ sound.numbers other hk.1
  · exact (limits_eraseKey he).trans sound.limits

lemma Sound.step (sound : Sound s chain) {event : Event} (guard : Guard s event) :
    ∃ after changed, s.step event = some after ∧ Sound after changed := by
  cases event with
  | makeNode kind fd =>
    cases fd with
    | none =>
      have hn := Int.le_add_one sound.next
      exact ⟨_, chain, rfl, (sound.makeVnode kind s.nextFd).congr hn (fun _ _ => rfl) le_rfl⟩
    | some fd => exact ⟨_, chain, rfl, sound.makeVnode kind fd⟩
  | registerFd node =>
    unfold Filesystem.step
    dsimp only
    split
    · rename_i isKnown
      obtain ⟨after, longer, ha, kept, _⟩ := sound.registerFd isKnown guard
      exact ⟨after, longer, ha, kept⟩
    · exact ⟨s, chain, rfl, sound⟩
  | mkpipe first second => exact sound.mkpipe first second guard
  | closeFile node =>
    cases node with
    | none => exact ⟨s, chain, rfl, sound⟩
    | some node =>
      unfold Filesystem.step
      dsimp only
      split
      · by_cases hd : (s.vnodes node).kind = .device
        · have hno : node ∉ s.opened := by
            unfold Guard at guard
            dsimp only at guard
            rw [if_pos hd] at guard
            exact guard
          obtain ⟨after, ha, kept⟩ := sound.closeDevice hd hno
          exact ⟨after, chain, ha, kept⟩
        unfold Guard at guard
        dsimp only at guard
        rw [if_neg hd] at guard
        exact sound.closeFile hd guard
      · exact ⟨s, chain, rfl, sound⟩

lemma sound_start (vnodes : Nat → Vnode) (vnodeCt : Nat)
    (store : HashStore Nat) : Sound (start vnodes vnodeCt store) [] where
  wellFormed := wellFormed_newTable store 0 (Nat.succ_pos 255)
  perm := List.Perm.refl []
  known := fun _ ho => (nomatch ho)
  numbers := fun _ ho => (nomatch ho)
  next := Int.natCast_nonneg 3
  limits := by
    unfold limits start newTable
    simp [setTable]

lemma Sound.run (events : List Event) :
    ∀ {s : Filesystem} {chain : List Nat}, Sound s chain → Guarded events s →
      ∃ after changed, s.run events = some after ∧ Sound after changed := by
  induction events with
  | nil => exact fun sound _ => ⟨_, _, rfl, sound⟩
  | cons _ events ih =>
    intro s chain sound hg
    obtain ⟨next, _, hn, kept⟩ := sound.step hg.1
    obtain ⟨after, changed, ha, hka⟩ := ih kept (hg.2 next hn)
    refine ⟨after, changed, ?_, hka⟩
    unfold Filesystem.run
    rw [hn]
    exact ha

lemma Guarded.of_prefix {made events : List Event} :
    ∀ {s : Filesystem}, Guarded events s → made <+: events → Guarded made s := by
  induction made generalizing events with
  | nil => exact fun _ _ => trivial
  | cons _ made ih =>
    intro s hg hp
    obtain ⟨rest, he⟩ := hp
    subst he
    refine ⟨hg.1, fun after ha => ?_⟩
    exact ih (hg.2 after ha) (prefix_append made rest)

/-- In a run whose events meet their conditions, every call returns, and in
every state reached the table of open files is right. -/
theorem correct_of_guarded (vnodes : Nat → Vnode) (vnodeCt : Nat) (store : HashStore Nat)
    (events : List Event) (guarded : Guarded events (start vnodes vnodeCt store)) :
    ∀ made, made <+: events → ∃ s, (start vnodes vnodeCt store).run made = some s ∧ Correct s := by
  intro made hp
  obtain ⟨s, _, isRun, sound⟩ := Sound.run made (sound_start vnodes vnodeCt store)
    (guarded.of_prefix hp)
  exact ⟨s, isRun, sound.correct⟩

def emptyStart : Filesystem :=
  start (fun _ => ⟨.file, -1⟩) 0
    ⟨fun _ => none, fun _ => 0, fun _ _ => none, fun _ => { myBuckets := .singularity 0 }, 0, 0⟩

def fileAndPipe : List Event :=
  [.makeNode .file none, .registerFd 0, .mkpipe none none, .closeFile (some 0)]

lemma guarded_fileAndPipe : Guarded fileAndPipe emptyStart := by
  refine ⟨trivial, fun _ hm => ?_⟩
  cases hm
  refine ⟨fun _ => by decide, fun registered hre => ?_⟩
  have hoo : registered.opened = [0] ∧ (registered.mkpipe none none).map
        (fun s => (s.opened, (s.vnodes 0).kind)) = some ([2, 1, 0], .file) := by
    have hb : (emptyStart.run (fileAndPipe.take 2)).map (fun s =>
        (s.opened, (s.mkpipe none none).map fun s => (s.opened, (s.vnodes 0).kind))) =
        some ([0], some ([2, 1, 0], .file)) := by
      decide +kernel
    have isRun : emptyStart.run (fileAndPipe.take 2) = some registered := by
      refine (bind_some _ _).trans ?_
      exact (congrArg (fun s => bind s _) hre).trans rfl
    rw [isRun, map_some, some.injEq, Prod.mk.injEq] at hb
    exact hb
  refine ⟨?_, fun piped hp => ?_⟩
  · unfold Guard
    dsimp only
    rw [hoo.1]
    decide
  have hto := hoo.2
  have hm : registered.mkpipe none none = some piped := hp
  rw [hm, map_some, some.injEq, Prod.mk.injEq] at hto
  refine ⟨?_, fun _ _ => trivial⟩
  unfold Guard
  dsimp only
  rw [hto.1, hto.2, if_neg (by decide)]
  exact .inl (by decide)

theorem correct_of_guarded_fileAndPipe : ∃ s, emptyStart.run fileAndPipe = some s ∧ Correct s :=
  correct_of_guarded _ _ _ fileAndPipe guarded_fileAndPipe fileAndPipe (prefix_refl _)

lemma not_correct_of_findFd (fd : Int) (node : Nat)
    (differs : ¬ (s.findFd fd = some (some node) ↔ node ∈ s.opened ∧ s.vid node = fd)) :
      ¬ Correct s := by
  intro hc
  obtain ⟨_, hf, hr⟩ := hc.finds fd
  apply differs
  rw [hf, some.injEq]
  exact hr node

def closedDevice : List Event := [.makeNode .device (some 255), .registerFd 0, .closeFile (some 0)]

/-- Two files are opened and closed; the first is closed again, the second
opened again, and the first closed once more. -/
def closedAgain : List Event :=
  [.makeNode .file none, .makeNode .file none, .registerFd 0, .registerFd 1,
    .closeFile (some 0), .closeFile (some 1), .closeFile (some 0),
    .registerFd 1, .closeFile (some 0)]

/-- The closed device is found under the number of closed nodes; the second file
is open, but not found. -/
theorem not_correct_closedDevice_closedAgain :
    (∃ s, emptyStart.run closedDevice = some s ∧ ¬ Correct s) ∧
      ∃ s, emptyStart.run closedAgain = some s ∧ ¬ Correct s := by
  refine ⟨?_, ?_⟩
  · have isEnd : (emptyStart.run closedDevice).map
        (fun s => (s.findFd (-1), s.opened)) = some (some (some 0), []) := by
      decide +kernel
    obtain ⟨s, isRun, hf⟩ := map_eq_some_iff.mp isEnd
    rw [Prod.mk.injEq] at hf
    refine ⟨s, isRun, not_correct_of_findFd (-1) 0 (fun same => ?_)⟩
    have ho := (same.mp hf.1).1
    rw [hf.2] at ho
    cases ho
  have isEnd : (emptyStart.run closedAgain).map (fun s => (s.findFd (-1), s.opened, s.vid 1)) =
        some (some none, [1], -1) := by
    decide +kernel
  obtain ⟨s, isRun, hf⟩ := map_eq_some_iff.mp isEnd
  rw [Prod.mk.injEq, Prod.mk.injEq] at hf
  refine ⟨s, isRun, not_correct_of_findFd (-1) 1 (fun same => ?_)⟩
  have ho : 1 ∈ s.opened ∧ s.vid 1 = -1 := by
    rw [hf.2.1]
    exact ⟨mem_cons_self, hf.2.2⟩
  rw [hf.1] at same
  cases same.mpr ho

end OoOS.Fs.FdMap
