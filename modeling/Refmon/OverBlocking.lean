import Refmon.Authorisation
import Refmon.DentryIdentity

/-!
# What a denial says about the object

An identifier has no device, so a denial can be due to a file of another filesystem that has the
same inode number. Up to that, a denied object is the target of a registered path or lies below
one, provided the object is identified faithfully and each path was registered where its target
can be found.
-/

namespace Refmon

open Wp Runs MountNamespace SlashPath

variable {π δ : Type} (ns : MountNamespace π δ) (sha256 : List UInt8 → Digest)

/-- The path leads to a target, and so does what its entry records, without following a final
link. -/
def MountNamespace.Direct (w : π) (path : CString) : Prop :=
  ∃ target, (ns.view w).kernPath path true = .ok target ∧
    ∀ recorded, (ns.view w).entryPath path = some recorded →
      (ns.view w).kernPath recorded false = .ok target

/-- A call made in the namespace; an addition is of a direct path. -/
def Event.Local (e : Event δ) : Prop :=
  ∃ w, e.env.Sees (ns.view w) ∧ ∀ pathIn passwordIn, e.call = .reconfAdd pathIn passwordIn →
    ∃ path, PointsTo pathIn path ∧ ns.Direct w path

/-- Every entry was made by an addition of a direct path. -/
def AllRegistered (k : Kernel) : Prop :=
  ∀ entry ∈ k.core.theInstance.registry, ∃ w path, Registered ns sha256 w path entry k ∧ ns.Direct w path

variable {ns sha256} {k : Kernel}

/-- A step adds at most the entry of its own addition. -/
theorem step_allRegistered {e : Event δ} (hreach : Reachable δ sha256 k) (hsha : e.env.sha256 = sha256)
    (hlocal : e.Local ns) (hall : AllRegistered ns sha256 k) : AllRegistered ns sha256 (step e k) := by
  have hold {entry : RegistryEntry} (hbefore : entry ∈ k.core.theInstance.registry)
      (hafter : entry ∈ (step e k).core.theInstance.registry) :
      ∃ w path, Registered ns sha256 w path entry (step e k) ∧ ns.Direct w path := by
    obtain ⟨w, path, hregistered, hdirect⟩ := hall entry hbefore
    exact ⟨w, path, hregistered.step hsha hafter, hdirect⟩
  intro entry hentry
  rcases entry_cases hentry with hbefore | ⟨pathIn, passwordIn, _, hcall, hresult, -, happended⟩
  · exact hold hbefore hentry
  · obtain ⟨w, hsees, hadd⟩ := hlocal
    obtain ⟨path, hpoints, hdirect⟩ := hadd pathIn passwordIn hcall
    refine ⟨w, path, ⟨Reach.start ?_, hentry⟩, hdirect⟩
    exact ⟨k, e, hreach, hsha, ⟨hsees, pathIn, passwordIn, hcall, hpoints⟩, hresult, happended⟩

/-- In every state reached by calls in the namespace each entry is that of a direct path. -/
theorem reachable_allRegistered (hk : ReachableBy sha256 (fun (e : Event δ) _ => e.Local ns) k) :
    AllRegistered ns sha256 k := by
  have hboth : Reachable δ sha256 k ∧ AllRegistered ns sha256 k := by
    apply Reach.invariant hk
    · intro t ht
      apply And.intro (Reach.start ht)
      intro entry hentry
      rw [ht.loaded.2.1] at hentry
      cases hentry
    · intro e t ⟨hsha, hlocal⟩ ⟨hreach, hall⟩
      exact ⟨hreach.next e ⟨hsha, trivial⟩, step_allRegistered hreach hsha hlocal hall⟩
  exact hboth.2

variable {v w : π} {path : CString} {entry : RegistryEntry} {dentry : δ}

/-- What the entry of a direct path matches: the target's inode number, and what lies below the
recorded path of a directory. -/
theorem matches_direct (hrecords : Records ns w path entry) (hdirect : ns.Direct w path)
    (hshown : ns.Shown dentry)
    (hmatches : (ns.view v).Matches entry ⟨ns.ownPath dentry, (ns.inode dentry).ino⟩) :
    ∃ target, (ns.view w).kernPath path true = .ok target ∧
      ((ns.inode dentry).ino = (ns.inode target).ino ∨
        (ns.inode target).isDir = true ∧ (ns.view w).kernPath entry.resolved.path true = .ok target ∧
          ∃ names, entry.resolved.path = pathOf names ∧ names <+: ns.names dentry) := by
  obtain ⟨target, htarget, hrecorded⟩ := hdirect
  have hfound := hrecorded _ hrecords.path
  have hlink := ns.follow_not_link w path target htarget
  have hfollow := ns.follow_of_not_link w _ target hfound hlink
  refine ⟨target, htarget, ?_⟩
  rcases hmatches with hpath | hino | ⟨hdir, hsub⟩
  · left
    have hsame := hshown w
    rw [← show entry.resolved.path = ns.ownPath dentry from hpath] at hsame
    rw [Except.ok.inj (hsame.symm.trans hfound)]
  · left
    rw [← inoAt_eq hfound, ← hrecords.ino]
    exact hino.symm
  · right
    rw [Vfs.DirOrGone, ns.kernPath_absolute v w _ true hrecords.path_absolute, hfollow,
      ns.view_inode] at hdir
    refine ⟨hdir, hfollow, ?_⟩
    obtain ⟨rest, hrest, hboundary⟩ := (isSubpath_iff _ _).mp hsub
    obtain ⟨names, hnames, hpre⟩ := exists_ancestor_of_render_eq hrest hboundary
      (ne_nil_of_isResolved hrecords.path_absolute)
    refine ⟨names, hnames, ?_⟩
    rcases hpre with heq | ⟨_, hbelow⟩
    · rw [heq]
    · exact hbelow

/-- A denied dentry is printed, and if it is shown and not a link it matches some entry. -/
theorem matches_of_denied {env : Env δ} {fFlags : UInt32} (hsees : env.Sees (ns.view v))
    (hshown : ns.Shown dentry) (hlink : ¬ ns.isLink dentry)
    (hdenied : returned (krpHookOpen env dentry fFlags k) = some KRP_TO_TAILHOOK ∨
      returned (krpHookRm env dentry k) = some KRP_TO_TAILHOOK) :
    ∃ entry ∈ k.core.theInstance.registry,
      (ns.view v).Matches entry ⟨ns.ownPath dentry, (ns.inode dentry).ino⟩ := by
  by_cases hfits : ns.Fits dentry
  · have hid := hshown.identify hlink hfits v
    have hraw : (ns.view v).dentryPathRaw dentry = .ok (ns.ownPath dentry) :=
      dentryPathRaw_of_fits hfits
    rcases hdenied with hopen | hrm
    · obtain ⟨id, hid', _, heligible⟩ := (returned_iff_of_decides
        (wp_krpHookOpen (k := k) hsees (view_absolute v) hraw fFlags)).2 hopen
      rw [hid, Option.some.injEq] at hid'
      rw [hid']
      exact heligible
    · obtain ⟨id, hid', _, heligible⟩ := (returned_iff_of_decides
        (wp_krpHookRm (k := k) hsees (view_absolute v) hraw)).2 hrm
      rw [hid, Option.some.injEq] at hid'
      rw [hid']
      exact heligible
  · have hgoes {hook : Option PathIdentifier → K ℤ} (hnone : hook none = pure KRP_GO_AHEAD) :
        returned ((identify env dentry >>= hook) k) ≠ some KRP_TO_TAILHOOK := by
      have h : wp (identify env dentry >>= hook) (fun ret _ => ret = KRP_GO_AHEAD) (fun _ _ => True)
          k := by
        rw [wp_bind]
        apply wp_mono (wp_identify_error hsees (dentryPathRaw_of_not_fits hfits)) _
          fun _ _ _ => trivial
        intro out t ⟨hout, _⟩
        rw [hout, hnone]
        exact rfl
      intro htail
      have hret := wp_ok h (returned_eq_some htail)
      cases hret
    rcases hdenied with hopen | hrm
    · exact (hgoes rfl hopen).elim
    · exact (hgoes rfl hrm).elim

section OtherDevice

/-- The module after root has added `/mnt/b`. -/
def mountedBAdded : Kernel := added twoMountsNs twoMounts_sound.rootDir (lit "/mnt/b")

/-- The file `/mnt/b`, which has the inode number of `/a` on another device. -/
def mountedB : Dentry := ⟨1, [fileName "b"]⟩

theorem mountedB_direct : twoMountsNs.Direct twoMounts_sound.rootDir (lit "/mnt/b") := by
  refine ⟨mountedB, by decide +kernel, ?_⟩
  intro recorded hrecorded
  rw [Vfs.entryPath, if_pos (by decide +kernel), Option.some.injEq] at hrecorded
  rw [← hrecorded]
  decide +kernel

theorem mountedBAdded_reachable :
    ReachableBy ciaoSha256 (fun (e : Event Dentry) _ => e.Local twoMountsNs) mountedBAdded := by
  have hload : returned (initModule (twoMountsView.calm ciaoSha256) inserted) = some 0 := by
    decide +kernel
  have hset : (rootSetState twoMountsView REFMON_STATE_STRING_RECON).Local twoMountsNs := by
    refine ⟨_, Vfs.calm_sees _ _, ?_⟩
    intro pathIn passwordIn hcall
    simp only [rootSetState, rootCall, reduceCtorEq] at hcall
  have hadd : (rootAdd twoMountsView (lit "/mnt/b")).Local twoMountsNs := by
    refine ⟨_, Vfs.calm_sees _ _, ?_⟩
    intro pathIn passwordIn hcall
    simp only [rootAdd, rootCall, Call.reconfAdd.injEq] at hcall
    rw [← hcall.1]
    exact ⟨_, userString_pointsTo _, mountedB_direct⟩
  have hrec : ReachableBy ciaoSha256 (fun (e : Event Dentry) _ => e.Local twoMountsNs)
      (bootedRecOn twoMountsView) :=
    (Reach.start (booted_of_returned hload)).next (rootSetState twoMountsView _) ⟨rfl, hset⟩
  exact hrec.next (rootAdd twoMountsView (lit "/mnt/b")) ⟨rfl, hadd⟩

end OtherDevice

end Refmon
