import CodeAtlas.Check
import CodeAtlas.Proofs.Files.Clearing
import CodeAtlas.Proofs.Session

/-!
# What checks do to a tree

To find out whether a directory can be written to, a check makes a file in it and removes it again
(`Check.trees_kept`).
-/

namespace CodeAtlas

open List Keyed

namespace Keyed

variable {κ α : Type} [DecidableEq κ] {key : κ} {a : α}

lemma put_put (a b : α) : (l : Keyed κ α) → put key b (put key a l) = put key b l
  | [] => by simp [put]
  | (k, c) :: rest => by
    by_cases hk : k = key
    · simp [put, hk]
    · simp [put, hk, put_put a b rest]

lemma put_of_get? : {l : Keyed κ α} → get? key l = some a → put key a l = l
  | [], h => nomatch h
  | (k, c) :: rest, h => by
    by_cases hk : k = key
    · simp only [get?, hk, if_true, Option.some.injEq] at h
      simp [put, hk, h]
    · simp only [get?, hk, if_false] at h
      simp [put, hk, put_of_get? h]

end Keyed

namespace Files

variable {root e new : Entry} {place : Place} {content : List UInt8} {now : Int} {s s' : Stage}

namespace Entry

/-- What was put under a free name can be taken away again. -/
lemma erase_put (h : e.HasParent place) (hfree : e.at? place = none) :
    (e.put new place).erase place = e := by
  induction place generalizing e with
  | nil => simp [at?] at hfree
  | cons name rest ih =>
    obtain ⟨es, rfl, hrest⟩ := hasParent_cons h
    cases rest with
    | nil =>
      have hnone : name ∉ Keyed.keys es := by simpa [at?, entries, get?_eq_none_iff] using hfree
      have hkept : es.filter (·.1 ≠ name) = es := filter_eq_self.mpr fun x hx =>
        decide_eq_true fun hname => hnone (mem_map.mpr ⟨x, hx, hname⟩)
      simp only [put, erase, put_of_notMem hnone]
      rw [filter_append, hkept]
      simp
    | cons next rest =>
      obtain ⟨child, hchild, hparent⟩ := hrest (cons_ne_nil _ _)
      have hat : child.at? (next :: rest) = none := by simpa [at?, entries, hchild] using hfree
      simp only [put, erase, hchild, Option.getD_some, get?_put, if_true, put_put, ih hparent hat,
        put_of_get? hchild]

end Entry

namespace Tree

variable {t t' t0 : Tree} {p q : Path} {d : Place} {m : Nat} {es es' : List (String × Entry)}
  {name : String} {tgt x : Target} {last : Bool}

/-- Makes sure that a file is there and removes it: how that went, and the tree then. -/
def probed (t : Tree) (p : Path) (now : Int) : Except Refusal Unit × Tree :=
  match t.touch p now with
  | .error r => (.error r, t)
  | .ok t =>
    match t.remove p with
    | .error r => (.error r, t)
    | .ok t => (.ok (), t)

lemma touch_of_find (h : t.find p = .ok tgt) : t.touch p now = .ok t ∨
    (∀ place es, tgt ≠ .entry place (.dir es)) ∧
      ∃ content, t.touch p now =
        .ok { t with root := t.root.put (.file content now) tgt.place } := by
  unfold touch
  rw [h]
  rcases tgt with ⟨place, _ | _ | _⟩ | place
  · exact .inr ⟨by simp, _, rfl⟩
  · exact .inl rfl
  · exact .inl rfl
  · exact .inr ⟨by simp, _, rfl⟩

lemma followLinks_of_free (hdir : root.at? d = some (.dir es)) (hname : PlainName name)
    (hfree : Keyed.get? name es = none) :
    followLinks root last m d [name] = .ok (.vacant (d ++ [name])) := by
  cases m <;> simp [followLinks, follow, hdir, hname.dot, hname.dots, hname.short, hfree]

lemma find_name (hrun : Reaches t.root ⟨maxLinks, t.start q, q.parts⟩ ⟨m, d, []⟩)
    (hfind : t0.find (below q [name]) last = .ok x) (last' : Bool) :
    t.find (below q [name]) last' = followLinks t.root last' m d [name] := by
  rw [find_of_find hfind, followLinks_below hrun last' (cons_ne_nil _ _)]

section

variable (hrun : Reaches t.root ⟨maxLinks, t.start q, q.parts⟩ ⟨m, d, []⟩) (hname : PlainName name)
  (hfind : t0.find (below q [name]) last = .ok x)

include hrun hname hfind

lemma remove_name (hat : t.root.at? (d ++ [name]) = some e) (he : e.isDir = false) :
    t.remove (below q [name]) = .ok { t with root := t.root.erase (d ++ [name]) } := by
  unfold remove
  rw [find_below hrun (cons_ne_nil _ _) (by simpa using hname) hat hfind]
  cases e with
  | dir => cases he
  | _ => rfl

end

section

variable (hrun : Reaches t.root ⟨maxLinks, t.start q, q.parts⟩ ⟨m, d, []⟩) (hname : PlainName name)
  (hfind : t.find (below q [name]) = .ok tgt) (hdir : t.root.at? d = some (.dir es)) (now : Int)

include hrun hname hfind hdir

lemma probed_of_free (hfree : Keyed.get? name es = none) :
    t.probed (below q [name]) now = (.ok (), t) := by
  have hat : t.root.at? (d ++ [name]) = none := by rw [Entry.at?_concat hdir, hfree]
  have hparent := Entry.hasParent_concat hdir name
  have hvacant : t.find (below q [name]) = .ok (.vacant (d ++ [name])) := by
    rw [find_name hrun hfind, followLinks_of_free hdir hname hfree]
  have hremove := remove_name (t := { t with root := t.root.put (.file [] now) (d ++ [name]) })
    (hrun.put [] now hparent (by simp [hat])) hname hfind (Entry.at?_put_self _ hparent) rfl
  simp only [probed, touch, hvacant, hremove, Entry.erase_put hparent hat]

lemma probed_of_dir (hget : Keyed.get? name es = some (.dir es')) :
    t.probed (below q [name]) now = (.error (.isDirectory, below q [name]), t) := by
  have hat : t.root.at? (d ++ [name]) = some (.dir es') := by rw [Entry.at?_concat hdir, hget]
  have hentry : ∀ last', t.find (below q [name]) last' = .ok (.entry (d ++ [name]) (.dir es')) :=
      fun last' => by
    rw [find_name hrun hfind]
    cases m <;> simp [followLinks, follow, hdir, hname.dot, hname.dots, hname.short, hget, hat]
  simp only [probed, touch, remove, hentry]

/-- A file or a link that has the name of the probe is lost. -/
lemma probed_of_taken (hget : Keyed.get? name es = some e) (he : e.isDir = false) :
    ∃ t', t.probed (below q [name]) now = (.ok (), t') ∧ t'.root.at? (d ++ [name]) = none := by
  have hat : t.root.at? (d ++ [name]) = some e := by rw [Entry.at?_concat hdir, hget]
  -- making sure that the file is there does not change the way to it
  obtain ⟨t1, htouch, hrun1, e1, hat1, he1⟩ : ∃ t1, t.touch (below q [name]) now = .ok t1 ∧
      Reaches t1.root ⟨maxLinks, t1.start q, q.parts⟩ ⟨m, d, []⟩ ∧
        ∃ e1, t1.root.at? (d ++ [name]) = some e1 ∧ e1.isDir = false := by
    rcases touch_of_find hfind with htouch | ⟨hnodir, content, htouch⟩
    · exact ⟨t, htouch, hrun, e, hat, he⟩
    · have hstands := stands_of_find hfind (by simp [below])
      have hfile := fun e => hstands.exists_file hnodir (e := e)
      refine ⟨_, htouch, hrun.put content now hstands.hasParent hfile, ?_⟩
      by_cases heq : d ++ [name] = tgt.place
      · rw [heq]
        exact ⟨_, Entry.at?_put_self _ hstands.hasParent, rfl⟩
      · refine ⟨e, at?_put_of_ne content now hstands.hasParent hfile hat ?_ heq, he⟩
        rintro es rfl
        cases he
  exact ⟨{ t1 with root := t1.root.erase (d ++ [name]) },
    by simp only [probed, htouch, remove_name hrun1 hname hfind hat1 he1],
    Entry.at?_erase_below (by simp) prefix_rfl⟩

end

/-! ### Making directories -/

/-- In a directory that is there, a name is taken or free, or it cannot be looked up. -/
lemma find_last (hdir : t.find p.parent = .ok (.entry d (.dir es)))
    (hnone : t.hasEntry p = .ok false) : (∃ place e, t.find p false = .ok (.entry place e)) ∨
      (∃ name, Keyed.get? name es = none ∧ t.find p false = .ok (.vacant (d ++ [name]))) ∨
        ∃ f, f ≠ .missing ∧ t.find p false = .error f := by
  have hparts : p.parts ≠ [] := by
    intro hnil
    have hself : p.parent = p := by rw [Path.parent, hnil, dropLast_nil, ← hnil]
    simp [hasEntry, test, get, hself ▸ hdir] at hnone
  obtain ⟨m, hrun⟩ := exists_reaches_of_find hdir
  have hat := at?_of_find hdir
  obtain ⟨front, name, hname⟩ := (eq_nil_or_concat' p.parts).resolve_left hparts
  have hp : p = below p.parent [name] := by
    obtain ⟨base, parts⟩ := p
    simp only at hname
    simp [below, Path.parent, hname]
  rw [hp]
  unfold find
  split_ifs
  · exact .inr (.inr ⟨.nullCharacter, by simp, rfl⟩)
  · exact .inr (.inr ⟨.nameTooLong, by simp, rfl⟩)
  · rw [followLinks_below hrun false (cons_ne_nil _ _)]
    obtain ⟨es', hes'⟩ := Entry.exists_dir_dropLast hat
    by_cases hdot : name = "."
    · exact .inl ⟨d, .dir es, by cases m <;> simp [followLinks, follow, hat, hdot]⟩
    by_cases hdots : name = ".."
    · exact .inl ⟨d.dropLast, .dir es', by cases m <;> simp [followLinks, follow, hat, hes', hdots]⟩
    by_cases hlong : maxName < name.utf8ByteSize
    · refine .inr (.inr ⟨.nameTooLong, by simp, ?_⟩)
      cases m <;> simp [followLinks, follow, hat, hdot, hdots, hlong]
    have hplain : PlainName name := ⟨hdot, hdots, hlong⟩
    rcases hget : Keyed.get? name es with _ | e
    · exact .inr (.inl ⟨name, hget, followLinks_of_free hat hplain hget⟩)
    · rw [← Entry.at?_concat hat] at hget
      exact .inl ⟨_, e, followLinks_of_at? hget (cons_ne_nil _ _) (by simpa using hplain) m⟩

lemma makeDirs_of_parent (hdir : t.find p.parent = .ok (.entry d (.dir es)))
    (hnone : t.hasEntry p = .ok false) :
    (∃ r, t.makeDirs p = (.error r, t)) ∨ ∃ place, t.find p false = .ok (.vacant place) ∧
      t.makeDirs p = (.ok (), { t with root := t.root.put (.dir []) place }) := by
  have hfinish : ∀ r, ∃ r', makeDirsBack.finish t p r = (.error r', t) := by
    intro r
    unfold makeDirsBack.finish orPresent hasDir
    unfold hasEntry at hnone
    unfold test at hnone ⊢
    rcases hget : t.get p with f | e
    · rw [hget] at hnone
      by_cases hf : f.isAbsence = true
      · exact ⟨r, by simp [hf]⟩
      · simp [hf] at hnone
    · simp [hget] at hnone
  unfold makeDirs makeDirsBack
  simp only [reverse_reverse]
  rcases find_last hdir hnone with ⟨place, e, hfind⟩ | ⟨name, -, hfind⟩ | ⟨f, hf, hfind⟩
  · left
    simp only [makeDir, hfind]
    exact hfinish _
  · exact .inr ⟨_, hfind, by simp only [makeDir, hfind]⟩
  · left
    simp only [makeDir, hfind]
    cases f with
    | missing => exact absurd rfl hf
    | nullCharacter => exact ⟨_, rfl⟩
    | _ => exact hfinish _

end Tree

end Files

namespace Check

open CodeAtlas.Action Files

variable {t t' : Tree} {p q : Path} {s : Session} {d : Place} {e : Entry}

lemma child_probeName : q.child probeName = below q [probeName] := rfl

/-- In the directory that a path leads to, the name of the probe is that of a file, or of a link
that leads somewhere or could. -/
def Endangers (t : Tree) (q : Path) : Prop :=
  ∃ d es e tgt, t.find q = .ok (.entry d (.dir es)) ∧ Keyed.get? probeName es = some e ∧
    e.isDir = false ∧ t.find (q.child probeName) = .ok tgt

/-! ### Probes -/

def verdict : Except Refusal Unit → Except Failure Bool
  | .ok () => .ok true
  | .error (.nullCharacter, p) => .error (.file .nullCharacter p.text)
  | .error _ => .ok false

lemma isWritable_eq : isWritable q s = (verdict (s.tree.probed (q.child probeName) s.now).1,
      { s with tree := (s.tree.probed (q.child probeName) s.now).2 }) := by
  have hget : (get : Action Session) s = (.ok s, s) := rfl
  have hrun : (do change (·.touch (q.child probeName) s.now)
                  change (·.remove (q.child probeName)) : Action Unit) s =
      ((s.tree.probed (q.child probeName) s.now).1.mapError fun r => .file r.1 r.2.text,
        { s with tree := (s.tree.probed (q.child probeName) s.now).2 }) := by
    have htouch := change_eq (·.touch (q.child probeName) s.now) s
    unfold Tree.probed
    rcases hfile : s.tree.touch (q.child probeName) s.now with r | t1
    · rw [hfile] at htouch
      exact bind_error htouch _
    · rw [hfile] at htouch
      rw [bind_ok htouch, change_eq]
      rcases hremove : t1.remove (q.child probeName) with r | t2 <;> simp [hremove, Except.mapError]
  unfold isWritable
  rw [bind_ok hget, bind_ok (by rw [attempt, hrun])]
  rcases (s.tree.probed (q.child probeName) s.now).1 with ⟨f, p⟩ | _
  · cases f <;> rfl
  · rfl

lemma plainName_probeName : PlainName probeName := by decide

lemma exists_probed (hq : t.find q = .ok (.entry d e)) (h : ¬ Endangers t q) :
    ∃ r, (∀ now, t.probed (q.child probeName) now = (r, t)) ∧ (r = .ok () → ∃ es, e = .dir es) := by
  rcases hfind : t.find (q.child probeName) with f | tgt
  · exact ⟨.error (f, q.child probeName), fun now => by simp only [Tree.probed, Tree.touch, hfind],
      by simp⟩
  obtain ⟨m, hrun⟩ := Tree.exists_reaches_of_find hq
  have hat := Tree.at?_of_find hq
  cases e with
  | dir es =>
    rcases hget : Keyed.get? probeName es with _ | e
    · exact ⟨_, (Tree.probed_of_free hrun plainName_probeName hfind hat · hget), fun _ => ⟨es, rfl⟩⟩
    · cases e with
      | dir _ => exact ⟨_, (Tree.probed_of_dir hrun plainName_probeName hfind hat · hget),
          fun _ => ⟨es, rfl⟩⟩
      | _ => exact absurd ⟨d, es, _, tgt, hq, hget, rfl, hfind⟩ h
  | _ =>
    rw [child_probeName, Tree.find_name hrun hfind] at hfind
    cases m <;> simp [followLinks, follow, hat] at hfind

lemma yields_isWritable (hq : t.find q = .ok (.entry d e)) (h : ¬ Endangers t q) :
    ∃ r, Yields (isWritable q) t r ∧ (r = .ok true → ∃ es, e = .dir es) := by
  obtain ⟨r, hr, hdir⟩ := exists_probed hq h
  refine ⟨verdict r, fun s hs => ⟨{ s with tree := t }, ?_, rfl⟩, fun hv => hdir ?_⟩
  · rw [isWritable_eq, hs, hr]
  · rcases r with ⟨f, p⟩ | _
    · cases f <;> simp [verdict] at hv
    · rfl

lemma isWritable_of_endangers (h : Endangers s.tree q) :
    ∃ t', isWritable q s = (.ok true, { s with tree := t' }) ∧ t' ≠ s.tree := by
  obtain ⟨d, es, e, tgt, hq, hget, he, hfind⟩ := h
  obtain ⟨m, hrun⟩ := Tree.exists_reaches_of_find hq
  have hat := Tree.at?_of_find hq
  obtain ⟨t', ht', hgone⟩ := Tree.probed_of_taken hrun plainName_probeName hfind hat s.now hget he
  refine ⟨t', by rw [isWritable_eq, child_probeName, ht']; rfl, ?_⟩
  rintro rfl
  rw [Entry.at?_concat hat, hget] at hgone
  cases hgone

/-! ### Checks -/

lemma yields_reject (reason : String) : Yields (reject reason) t (.ok false) :=
  (yields_log _ _ _).bind (yields_pure _)

lemma yields_accept (remark : String) : Yields (accept remark) t (.ok true) :=
  (yields_log _ _ _).bind (yields_pure _)

lemma hasEntry_eq_true_iff : t.hasEntry p = .ok true ↔ ∃ d e, t.find p = .ok (.entry d e) := by
  unfold Tree.hasEntry Tree.test Files.Tree.get
  rcases t.find p with f | ⟨d, e⟩ | d
  · cases f <;> simp [Fault.isAbsence]
  · simp
  · simp [Fault.isAbsence]

lemma yields_parentPath (h : ¬ Endangers t p.parent) : ∃ r, Yields (parentPath p) t r ∧
    (r = .ok true → ∃ d es, t.find p.parent = .ok (.entry d (.dir es))) := by
  rcases hthere : t.hasEntry p.parent with f | _ | _
  · exact ⟨_, (yields_isThere_error hthere).bind_error _, by simp⟩
  · exact ⟨.ok false, (yields_isThere_of_hasEntry hthere).bind (yields_reject _), by simp⟩
  · obtain ⟨d, e, hq⟩ := hasEntry_eq_true_iff.mp hthere
    obtain ⟨r, hr, hdir⟩ := yields_isWritable hq h
    refine ⟨r, (yields_isThere_of_hasEntry hthere).bind ?_, fun htrue => ?_⟩
    · rcases r with f | _ | _
      · exact hr.bind_error _
      · exact hr.bind (yields_reject _)
      · exact hr.bind (yields_pure _)
    · obtain ⟨es, rfl⟩ := hdir htrue
      exact ⟨d, es, hq⟩

lemma hasEntry_of_endangers (h : Endangers t q) : t.hasEntry q = .ok true := by
  obtain ⟨d, es, -, -, hq, -⟩ := h
  exact hasEntry_eq_true_iff.mpr ⟨d, _, hq⟩

lemma parentPath_of_endangers (h : Endangers s.tree p.parent) :
    ∃ t', parentPath p s = (.ok true, { s with tree := t' }) ∧ t' ≠ s.tree := by
  obtain ⟨t', ht', hne⟩ := isWritable_of_endangers h
  refine ⟨t', ?_, hne⟩
  unfold parentPath isThere
  rw [bind_ok (ask_of_ok (hasEntry_of_endangers h))]
  exact bind_ok ht' _

lemma exists_yields_filePath {path : String} {mustExist : Bool}
    (h : ¬ (path ≠ "" ∧ mustExist = false ∧ Endangers t (Path.ofString path).parent)) :
    ∃ r, Yields (filePath path mustExist) t r := by
  unfold filePath
  by_cases hpath : path = ""
  · rw [if_pos (by simp [hpath])]
    exact ⟨_, yields_reject _⟩
  rw [if_neg (by simpa using hpath)]
  cases mustExist with
  | false =>
    obtain ⟨r, hr, -⟩ := yields_parentPath fun hend => h ⟨hpath, rfl, hend⟩
    exact exists_yields_bind ⟨r, hr⟩ fun
      | false => ⟨_, yields_pure _⟩
      | true => ⟨_, yields_accept _⟩
  | true =>
    exact exists_yields_bind exists_yields_ask fun
      | false => ⟨_, yields_reject _⟩
      | true => exists_yields_bind exists_yields_ask fun
        | false => ⟨_, yields_reject _⟩
        | true => ⟨_, yields_accept _⟩

lemma filePath_of_endangers {path : String} (hpath : path ≠ "")
    (h : Endangers s.tree (Path.ofString path).parent) :
    (filePath path false s).2.tree ≠ s.tree := by
  obtain ⟨t', ht', hne⟩ := parentPath_of_endangers h
  unfold filePath
  rw [if_neg (by simpa using hpath)]
  simp only [Bool.false_eq_true, if_false]
  rw [bind_ok ht']
  exact hne

/-- A check for output has to make the directory: that is wanted, nothing is there, and all is well.
-/
def IsToMake (t : Tree) (dir : Path) (create : Bool) (r : Except Failure Bool) : Prop :=
  create = true ∧ t.hasEntry dir = .ok false ∧ r = .ok true

/-- At most the directory asked for is made, under its free name. -/
structure MakesAtMost (t : Tree) (dir : Path) (create : Bool)
    (out : Except Failure Bool × Session) : Prop where
  made : IsToMake t dir create out.1 → ∃ place, t.find dir false = .ok (.vacant place) ∧
    out.2.tree = { t with root := t.root.put (.dir []) place }
  kept : ¬ IsToMake t dir create out.1 → out.2.tree = t

/-- The directory that a check for output probes. -/
def probed? (t : Tree) (dir : Path) : Option Path :=
  match t.hasEntry dir with
  | .ok true => some dir
  | .ok false => some dir.parent
  | .error _ => none

lemma makesAtMost_of_yields {dir : Path} {create : Bool} {a : Action Bool} {r : Except Failure Bool}
    (h : Yields a s.tree r) (hr : ¬ IsToMake s.tree dir create r) :
    MakesAtMost s.tree dir create (a s) := by
  obtain ⟨s', hs', htree⟩ := h s rfl
  rw [hs']
  exact ⟨fun hmake => absurd hmake hr, fun _ => htree⟩

lemma outputPath_of_parent {path : String} {s1 : Session} (hpath : path ≠ "")
    (hthere : s.tree.hasEntry (Path.ofString path) = .ok false)
    (hs1 : parentPath (Path.ofString path) s = (.ok true, s1)) :
    (outputPath path true s).2.tree = (s1.tree.makeDirs (Path.ofString path)).2 ∧
      ((outputPath path true s).1 = .ok true ↔ (s1.tree.makeDirs (Path.ofString path)).1 =
        .ok ()) := by
  unfold outputPath isThere
  rw [if_neg (by simpa using hpath), bind_ok (ask_of_ok hthere)]
  simp only [Bool.false_eq_true, if_false]
  rw [bind_ok hs1]
  simp only [Bool.not_true, Bool.false_eq_true, if_false, if_true]
  rw [bind_ok attempt_makeDirs]
  rcases s1.tree.makeDirs (Path.ofString path) with ⟨⟨f, q⟩ | _, t⟩
  · cases f <;> exact ⟨rfl, iff_of_false nofun nofun⟩
  · exact ⟨rfl, iff_of_true rfl rfl⟩

lemma outputPath_of_safe {path : String} (create : Bool)
    (h : path ≠ "" → ∀ q ∈ probed? s.tree (Path.ofString path), ¬ Endangers s.tree q) :
    MakesAtMost s.tree (Path.ofString path) create (outputPath path create s) := by
  by_cases hpath : path = ""
  · unfold outputPath
    rw [if_pos (by simp [hpath])]
    exact makesAtMost_of_yields (yields_reject _) fun hto => nomatch hto.2.2
  have hsafe := h hpath
  unfold probed? at hsafe
  rcases hthere : s.tree.hasEntry (Path.ofString path) with f | _ | _ <;> rw [hthere] at hsafe
  · unfold outputPath
    rw [if_neg (by simpa using hpath)]
    exact makesAtMost_of_yields ((yields_isThere_error hthere).bind_error _) fun hto =>
      nomatch hto.2.2
  · obtain ⟨r, hr, hdir⟩ := yields_parentPath (hsafe _ rfl)
    have hfirst := yields_isThere_of_hasEntry hthere
    by_cases hmake : r = .ok true ∧ create = true
    · obtain ⟨rfl, rfl⟩ := hmake
      obtain ⟨d, es, hparent⟩ := hdir rfl
      obtain ⟨s1, hs1, htree1⟩ := hr s rfl
      obtain ⟨htree, hr⟩ := outputPath_of_parent hpath hthere hs1
      rw [htree1] at htree hr
      rcases s.tree.makeDirs_of_parent hparent hthere with ⟨r, hmake⟩ | ⟨place, hfree, hmake⟩ <;>
        rw [hmake] at htree hr
      · exact ⟨fun hto => absurd (hr.mp hto.2.2) nofun, fun _ => htree⟩
      · exact ⟨fun _ => ⟨place, hfree, htree⟩, fun hto => absurd ⟨rfl, hthere, hr.mpr rfl⟩ hto⟩
    · unfold outputPath
      rw [if_neg (by simpa using hpath)]
      rcases r with f | _ | _
      · exact makesAtMost_of_yields (hfirst.bind (hr.bind_error _)) fun hto => nomatch hto.2.2
      · exact makesAtMost_of_yields (hfirst.bind (hr.bind (yields_pure _))) fun hto =>
          nomatch hto.2.2
      · obtain rfl : create = false := by simpa using hmake
        exact makesAtMost_of_yields (hfirst.bind (hr.bind (yields_accept _))) fun hto =>
          nomatch hto.1
  · obtain ⟨d, e, hq⟩ := hasEntry_eq_true_iff.mp hthere
    obtain ⟨r, hr, -⟩ := yields_isWritable hq (hsafe _ rfl)
    have hto : ∀ r, ¬ IsToMake s.tree (Path.ofString path) create r := by simp [IsToMake, hthere]
    have hfirst := yields_isThere_of_hasEntry hthere
    have hdir : s.tree.hasDir (Path.ofString path) = .ok e.isDir := by
      simp only [Tree.hasDir, Tree.test, Files.Tree.get, hq]
    unfold outputPath
    rw [if_neg (by simpa using hpath)]
    cases hisDir : e.isDir <;> rw [hisDir] at hdir
    · exact makesAtMost_of_yields (hfirst.bind ((yields_ask hdir).bind (yields_reject _))) (hto _)
    · rcases r with f | _ | _
      · exact makesAtMost_of_yields (hfirst.bind ((yields_ask hdir).bind (hr.bind_error _))) (hto _)
      · exact makesAtMost_of_yields
          (hfirst.bind ((yields_ask hdir).bind (hr.bind (yields_reject _)))) (hto _)
      · exact makesAtMost_of_yields
          (hfirst.bind ((yields_ask hdir).bind (hr.bind (yields_accept _)))) (hto _)

/-- **A check for output makes at most the directory asked for, and a check of a file changes
nothing, if the directory that is probed holds no file or link with the name of the probe.**
Otherwise a check of a file that need not be there does change the tree. -/
theorem trees_kept (s : Session) (path : String) (create mustExist : Bool) :
    (¬ (path ≠ "" ∧ ∃ q ∈ probed? s.tree (Path.ofString path), Endangers s.tree q) →
      MakesAtMost s.tree (Path.ofString path) create (outputPath path create s)) ∧
    ((filePath path mustExist s).2.tree = s.tree ↔
      ¬ (path ≠ "" ∧ mustExist = false ∧ Endangers s.tree (Path.ofString path).parent)) := by
  refine ⟨fun h => ?_, ⟨?_, fun h => ?_⟩⟩
  · exact outputPath_of_safe create fun hpath q hq hend => h ⟨hpath, q, hq, hend⟩
  · rintro hkept ⟨hpath, rfl, h⟩
    exact filePath_of_endangers hpath h hkept
  · obtain ⟨r, hr⟩ := exists_yields_filePath h
    exact (hr.of_run rfl).2

/-- A directory with a file and a directory that has the name of the probe. -/
def outTree : Tree where
  root := .dir [("a.py", .file [10] 0), ("out", .dir [("b", .file [107] 0), (probeName, .dir [])])]
  here := []

/-- The directory is probed, for itself, for a directory and for a file in it. -/
theorem trees_kept_outTree : let s : Session := { tree := outTree }
    MakesAtMost outTree (Path.ofString "out") true (outputPath "out" true s) ∧
      MakesAtMost outTree (Path.ofString "out/c") true (outputPath "out/c" true s) ∧
      (filePath "out/c" false s).2.tree = outTree := by
  intro s
  have hsafe : ¬ Endangers outTree (Path.ofString "out") := by
    rintro ⟨d, es, e, tgt, hfind, hget, hdir, -⟩
    cases hfind.symm.trans (show _ = .ok (.entry ["out"]
      (.dir [("b", .file [107] 0), (probeName, .dir [])])) from rfl)
    obtain rfl : .dir [] = e := Option.some.inj hget
    cases hdir
  refine ⟨(trees_kept s "out" true true).1 ?_, (trees_kept s "out/c" true true).1 ?_,
    (trees_kept s "out/c" true false).2.mpr ?_⟩
  · rintro ⟨-, q, hq, h⟩
    cases hq
    exact hsafe h
  · rintro ⟨-, q, hq, h⟩
    cases hq
    exact hsafe h
  · rintro ⟨-, -, h⟩
    exact hsafe h

/-- A file that has the name of the probe. -/
def namesakeTree : Tree := { root := .dir [("out", .dir [(probeName, .file [107] 0)])], here := [] }

/-- The directory is found good, and the file is gone. -/
theorem namesake_lost : namesakeTree.root.at? ["out", probeName] = some (.file [107] 0) ∧
    (outputPath "out" true { tree := namesakeTree }).1 = .ok true ∧
      (outputPath "out" true { tree := namesakeTree }).2.tree.root.at? ["out", probeName] = none :=
  ⟨rfl, rfl, rfl⟩

end Check

end CodeAtlas
