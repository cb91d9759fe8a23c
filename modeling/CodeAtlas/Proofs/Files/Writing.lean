import CodeAtlas.Proofs.Files.Route

/-!
# Writing files and reading them back

A file that was written is read back with its content (`Tree.exists_write`), and after a run of
writes it holds what was written to it last (`Tree.Wrote.read`).
-/

namespace CodeAtlas.Files

open List Option Entry

variable {root : Entry} {content : List UInt8} {t : Tree} {p : Path} {e : Entry} {name : String}
  {here : Place} {es es' : List (String × Entry)} {tgt : Target} {file : List UInt8 × Int}
  {vs : List (Path × List UInt8)} {s s' : Stage} {new : Entry}

namespace Entry

lemma hasParent_cons {rest : Place} (h : e.HasParent (name :: rest)) :
    ∃ es, e = .dir es ∧ (rest ≠ [] → ∃ child, Keyed.get? name es = some child ∧
      child.HasParent rest) := by
  rcases eq_nil_or_concat' rest with rfl | ⟨front, last, rfl⟩
  · obtain ⟨es, hes⟩ := h [] name rfl
    exact ⟨es, some.inj hes, fun hne => absurd rfl hne⟩
  · obtain ⟨es, hes⟩ := h (name :: front) last rfl
    obtain ⟨child, hchild, hat⟩ := bind_eq_some_iff.mp hes
    obtain ⟨es', rfl⟩ := exists_eq_dir hchild
    refine ⟨es', rfl, fun _ => ⟨child, hchild, fun front' last' heq => ?_⟩⟩
    obtain ⟨rfl, -⟩ := append_inj' heq rfl
    exact ⟨es, hat⟩

lemma at?_put_self (new : Entry) {place : Place} (h : e.HasParent place) :
    (e.put new place).at? place = some new := by
  induction place generalizing e with
  | nil => simp [put, at?]
  | cons name rest ih =>
    obtain ⟨es, rfl, hrest⟩ := hasParent_cons h
    simp only [put, at?, entries, Keyed.get?_put, if_true, bind_some]
    by_cases hlast : rest = []
    · subst hlast
      simp [put, at?]
    · obtain ⟨child, hchild, hparent⟩ := hrest hlast
      rw [hchild, getD_some]
      exact ih hparent

lemma alike_at?_put {place q : Place} (h : e.HasParent place) (hq : ¬ place <+: q) :
    Alike (e.at? q) ((e.put new place).at? q) := by
  induction place generalizing e q with
  | nil => exact absurd nil_prefix hq
  | cons name rest ih =>
    obtain ⟨es, rfl, hrest⟩ := hasParent_cons h
    cases q with
    | nil => exact .dir _ _
    | cons name' q =>
      simp only [put, at?, entries, Keyed.get?_put]
      by_cases hname : name' = name
      · subst hname
        have hq' : ¬ rest <+: q := fun hpre => hq (cons_prefix_cons.mpr ⟨rfl, hpre⟩)
        have hne : rest ≠ [] := by
          rintro rfl
          exact hq' nil_prefix
        obtain ⟨child, hchild, hparent⟩ := hrest hne
        simp only [hchild, if_true, bind_some, getD_some]
        exact ih hparent hq'
      · rw [if_neg hname]
        exact .same _

end Entry

/-! ### Where look-ups come out -/

/-- What a path led to is as it was said, and no link stands there. -/
inductive Target.Stands (root : Entry) : Target → Prop
  | entry {place : Place} {e : Entry} (there : root.at? place = some e)
      (noLink : ∀ target, e ≠ .link target) : Stands root (.entry place e)
  | vacant {front : Place} {name : String} {es : List (String × Entry)}
      (dir : root.at? front = some (.dir es)) (free : Keyed.get? name es = none) :
      Stands root (.vacant (front ++ [name]))

def Target.place : Target → Place
  | .entry place _ => place
  | .vacant place => place

lemma Target.Stands.hasParent (h : tgt.Stands root) : root.HasParent tgt.place := by
  cases h with
  | entry there _ => exact hasParent_of_at? there
  | vacant dir _ => exact hasParent_concat dir _

lemma Target.Stands.exists_file (h : tgt.Stands root)
    (hnodir : ∀ place es, tgt ≠ .entry place (.dir es))
    (he : root.at? tgt.place = some e) : ∃ old time, e = .file old time := by
  cases h with
  | @entry place found there noLink =>
    obtain rfl : found = e := some.inj (there.symm.trans he)
    cases found with
    | file old time => exact ⟨old, time, rfl⟩
    | dir es => exact absurd rfl (hnodir _ es)
    | link target => exact absurd rfl (noLink target)
  | vacant dir free =>
    simp only [Target.place] at he
    rw [at?_concat dir, free] at he
    cases he

lemma Goes.noLink (h : Goes root s s') (target : String) :
    root.at? s'.here ≠ some (.link target) := by
  obtain ⟨es, hes⟩ := h.exists_dir
  cases h with
  | stay _ => simp [hes]
  | up _ =>
    obtain ⟨es', hes'⟩ := exists_dir_dropLast hes
    simp [hes']
  | enter dir _ get noLink =>
    rw [at?_concat dir, get]
    exact fun he => noLink target (some.inj he)
  | @link n here rest _ name path _ _ _ =>
    obtain ⟨es', rfl⟩ := exists_eq_dir_of_at? hes
    by_cases habs : path.startsWith "/" = true
    · simp [habs, Entry.at?]
    · simp [habs, hes]

lemma Reaches.noLink (h : Reaches root s s')
    (hs : ∀ target, root.at? s.here ≠ some (.link target)) :
    ∀ target, root.at? s'.here ≠ some (.link target) := by
  rcases h.cases_tail with rfl | ⟨_, _, hgoes⟩
  · exact hs
  · exact hgoes.noLink

lemma Stage.Ends.stands (h : s.Ends root true (.ok tgt))
    (hs : ∀ target, root.at? s.here ≠ some (.link target)) : tgt.Stands root := by
  cases h with
  | found there => exact .entry there fun target he => hs target (he ▸ there)
  | vacant dir _ free => exact .vacant dir free
  | stays _ _ _ noLast => cases noLast

/-! ### Looking up what was written -/

variable {place : Place}

/-- Where a look-up comes out once something new is put at a place. -/
def Target.afterPut (tgt : Target) (place : Place) (new : Entry) : Target :=
  if tgt.place = place then .entry place new else tgt

lemma Target.afterPut_of_eq (h : tgt.place = place) : tgt.afterPut place new = .entry place new :=
  if_pos h

lemma Target.afterPut_of_ne (h : tgt.place ≠ place) : tgt.afterPut place new = tgt := if_neg h

section

variable (content : List UInt8) (now : Int) (hparent : root.HasParent place)
  (hplace : ∀ e, root.at? place = some e → ∃ old time, e = .file old time)

include hparent hplace

lemma besides_put : Besides [place] root (root.put (.file content now) place) where
  noDir := by
    refine forall_mem_singleton.mpr fun es hes => ?_
    obtain ⟨old, time, hfile⟩ := hplace _ hes
    cases hfile
  alike q hq := alike_at?_put hparent (hq place mem_cons_self)

/-- A file that is put where no directory and no link stands is in no look-up's way. -/
lemma Goes.put (h : Goes root s s') : Goes (root.put (.file content now) place) s s' := by
  have hbesides := besides_put content now hparent hplace
  obtain ⟨es, hes⟩ := h.exists_dir
  obtain ⟨es', hes'⟩ := hbesides.exists_dir hes
  rcases hbesides.goes h with ⟨name, rest, hnames, hplain, hmeets⟩ | h'
  · -- the step enters the file that stands at the place, and it can enter the new one
    obtain rfl := mem_singleton.mp hmeets
    have hself : Keyed.get? name es' = some (.file content now) := by
      rw [← at?_concat hes', at?_put_self _ hparent]
    cases h with
    | stay _ => exact absurd (head_eq_of_cons_eq hnames).symm hplain.dot
    | up _ => exact absurd (head_eq_of_cons_eq hnames).symm hplain.dots
    | enter _ plain _ _ =>
      cases hnames
      exact .enter hes' plain hself (by simp)
    | link dir _ get =>
      cases hnames
      obtain ⟨old, time, hfile⟩ := hplace _ ((at?_concat dir).trans get)
      cases hfile
  · exact h'

lemma Reaches.put (h : Reaches root s s') : Reaches (root.put (.file content now) place) s s' :=
  h.lift id fun _ _ hgoes => hgoes.put content now hparent hplace

lemma at?_put_of_ne {here : Place} (hat : root.at? here = some e) (he : ∀ es, e ≠ .dir es)
    (hne : here ≠ place) : (root.put (.file content now) place).at? here = some e := by
  have halike := (besides_put content now hparent hplace).alike_at? hat (by simpa using hne)
  cases e with
  | file _ _ => exact halike.eq_of_file
  | link _ => exact halike.eq_of_link
  | dir es => exact absurd rfl (he es)

lemma Stage.Ends.put (h : s.Ends root true (.ok tgt))
    (htgt : ∀ place es, tgt ≠ .entry place (.dir es)) :
    ∃ s', Reaches (root.put (.file content now) place) s s' ∧
      s'.Ends (root.put (.file content now) place) true
        (.ok (tgt.afterPut place (.file content now))) := by
  have hself := at?_put_self (.file content now) hparent
  have hbesides := besides_put content now hparent hplace
  cases h with
  | @found n here e there =>
    refine ⟨_, .refl, ?_⟩
    by_cases heq : here = place
    · subst heq
      rw [Target.afterPut_of_eq (show (Target.entry here e).place = here from rfl)]
      exact .found hself
    · rw [Target.afterPut_of_ne (show (Target.entry here e).place ≠ place from heq)]
      exact .found (at?_put_of_ne content now hparent hplace there
        (fun es hes => htgt here es (hes ▸ rfl)) heq)
  | @vacant n here name es dir plain free =>
    obtain ⟨es', hes'⟩ := hbesides.exists_dir dir
    by_cases heq : here ++ [name] = place
    · subst heq
      rw [Target.afterPut_of_eq (show (Target.vacant (here ++ [name])).place = here ++
        [name] from rfl)]
      rw [at?_concat hes'] at hself
      exact ⟨_, .single (.enter hes' plain hself (by simp)), .found ((at?_concat hes').trans hself)⟩
    · have halike := hbesides.alike_get? dir hes' (by simpa using heq)
      rw [free] at halike
      rw [Target.afterPut_of_ne (show (Target.vacant (here ++ [name])).place ≠ place from heq)]
      exact ⟨_, .refl, .vacant hes' plain halike.eq_of_none⟩
  | stays _ _ _ noLast => cases noLast

end

namespace Tree

lemma hasEntry_of_read (h : t.read p = .ok file) : t.hasEntry p = .ok true := by
  unfold read at h
  unfold hasEntry test
  rcases hget : t.get p with f | e
  · simp [hget] at h
  · rfl

lemma hasFile_of_read (h : t.read p = .ok file) : t.hasFile p = .ok true := by
  unfold read at h
  unfold hasFile test
  split at h
  · rename_i heq
    rw [heq]
    rfl
  · cases h
  · cases h

/-- A path that a file can be written to: it leads to a file or to a free name. -/
def Writable (t : Tree) (p : Path) : Prop :=
  ∃ tgt, t.find p = .ok tgt ∧ ∀ place es, tgt ≠ .entry place (.dir es)

lemma stands_of_find (h : t.find p = .ok tgt) (hp : p.parts ≠ []) : tgt.Stands t.root := by
  unfold find at h
  split_ifs at h
  obtain ⟨name, rest, hparts⟩ := exists_cons_of_ne_nil hp
  rw [hparts] at h
  obtain ⟨s', hrun, hend⟩ := exists_ends maxLinks (t.start p) (name :: rest)
  refine (h ▸ hend).stands (hrun.noLink fun target hlink => ?_)
  simp [maxLinks, followLinks, follow, hlink] at h

lemma find_put_of_stands {tgt' : Target} (hstands : tgt'.Stands t.root)
    (hnodir' : ∀ place es, tgt' ≠ .entry place (.dir es)) (h : t.find p = .ok tgt)
    (hnodir : ∀ place es, tgt ≠ .entry place (.dir es)) (content : List UInt8) (now : Int) :
    ({ t with root := t.root.put (.file content now) tgt'.place } : Tree).find p =
      .ok (tgt.afterPut tgt'.place (.file content now)) := by
  unfold find at h ⊢
  split_ifs at h ⊢
  have hfile := fun e => hstands.exists_file hnodir' (e := e)
  obtain ⟨s', hrun, hend⟩ := exists_ends maxLinks (t.start p) p.parts
  obtain ⟨s'', hmore, hend'⟩ := (h ▸ hend).put content now hstands.hasParent hfile hnodir
  exact Reaches.followLinks_of_ends ((hrun.put content now hstands.hasParent hfile).trans hmore)
    hend'

lemma find_put (h : t.find p = .ok tgt) (hnodir : ∀ place es, tgt ≠ .entry place (.dir es))
    (content : List UInt8) (now : Int) :
    ({ t with root := t.root.put (.file content now) tgt.place } : Tree).find p =
      .ok (.entry tgt.place (.file content now)) := by
  by_cases hp : p.parts = []
  · unfold find at h ⊢
    split_ifs at h ⊢
    rw [hp] at h ⊢
    simp only [maxLinks, followLinks, follow] at h ⊢
    rcases hstart : t.root.at? (t.start p) with _ | e
    · simp [hstart] at h
    · rw [hstart] at h
      cases h
      have hself := at?_put_self (.file content now) (hasParent_of_at? hstart)
      simp only [start, Target.place] at hself ⊢
      rw [hself]
  · rw [find_put_of_stands (stands_of_find h hp) hnodir h hnodir, Target.afterPut_of_eq rfl]

lemma writable_of_write {t' : Tree} {now : Int} (h : t.write p content now = .ok t') :
    t.Writable p := by
  unfold write at h
  rcases htgt : t.find p with f | tgt
  · simp [htgt] at h
  · refine ⟨tgt, htgt, ?_⟩
    rintro place es rfl
    simp [htgt] at h

lemma exists_refusal (h : ¬ t.Writable p) :
    ∃ r, ∀ content now, t.write p content now = .error r := by
  unfold write
  rcases htgt : t.find p with f | tgt
  · exact ⟨(f, p), fun _ _ => rfl⟩
  · rcases tgt with ⟨place, _ | es | _⟩ | place
    · exact absurd ⟨_, htgt, by simp⟩ h
    · exact ⟨(.isDirectory, p), fun _ _ => rfl⟩
    · exact absurd ⟨_, htgt, by simp⟩ h
    · exact absurd ⟨_, htgt, by simp⟩ h

lemma write_eq (h : t.find p = .ok tgt) (hnodir : ∀ place es, tgt ≠ .entry place (.dir es))
    (now : Int) :
    t.write p content now = .ok { t with root := t.root.put (.file content now) tgt.place } := by
  unfold write
  rw [h]
  rcases tgt with ⟨place, _ | es | _⟩ | place
  · rfl
  · exact absurd rfl (hnodir place es)
  · rfl
  · rfl

/-- **A file that was written is read back.** -/
theorem exists_write (h : t.Writable p) (content : List UInt8) (now : Int) :
    ∃ t', t.write p content now = .ok t' ∧ t'.read p = .ok (content, now) := by
  obtain ⟨tgt, htgt, hnodir⟩ := h
  exact ⟨_, write_eq htgt hnodir now, by simp only [read, get, find_put htgt hnodir]⟩

/-! ### Runs of writes -/

def place? (t : Tree) (p : Path) : Option Place := (t.find p).toOption.map Target.place

/-- Writes, each with its path and content, take a tree to another one after the other. -/
inductive Wrote : Tree → List (Path × List UInt8) → Tree → Prop
  | nil (t : Tree) : Wrote t [] t
  | cons {t t1 u : Tree} {p : Path} {content : List UInt8} {now : Int}
  {ws : List (Path × List UInt8)}
      (first : t.write p content now = .ok t1) (rest : Wrote t1 ws u) :
        Wrote t ((p, content) :: ws) u

variable {t t' u : Tree} {p q : Path} {content : List UInt8} {now : Int}
  {ws : List (Path × List UInt8)}

lemma Wrote.append (h : Wrote t vs t') (h' : Wrote t' ws u) : Wrote t (vs ++ ws) u := by
  induction h with
  | nil _ => exact h'
  | cons first _ ih => exact .cons first (ih h')

lemma Wrote.exists_of_append (h : Wrote t (vs ++ ws) u) : ∃ t', Wrote t' ws u := by
  induction vs generalizing t with
  | nil => exact ⟨t, h⟩
  | cons _ vs ih =>
    cases h with
    | cons _ rest => exact ih rest

lemma find_of_write (hq : q.parts ≠ []) (hwrite : t.write q content now = .ok t')
    (h : t.find p = .ok tgt) (hnodir : ∀ place es, tgt ≠ .entry place (.dir es)) :
    ∃ place, t.place? q = some place ∧
      t'.find p = .ok (tgt.afterPut place (.file content now)) := by
  obtain ⟨tgt', htgt', hnodir'⟩ := writable_of_write hwrite
  obtain rfl := Except.ok.inj (hwrite.symm.trans (write_eq htgt' hnodir' now))
  exact ⟨tgt'.place, by simp [place?, htgt', Except.toOption],
    find_put_of_stands (stands_of_find htgt' hq) hnodir' h hnodir content now⟩

lemma Writable.write (h : t.Writable p) (hq : q.parts ≠ [])
    (hwrite : t.write q content now = .ok t') : t'.Writable p ∧ t'.place? p = t.place? p := by
  obtain ⟨tgt, htgt, hnodir⟩ := h
  obtain ⟨place, -, hfind⟩ := find_of_write hq hwrite htgt hnodir
  unfold Writable place?
  rw [hfind, htgt]
  by_cases heq : tgt.place = place
  · rw [Target.afterPut_of_eq heq]
    exact ⟨⟨_, rfl, by simp⟩, congrArg some heq.symm⟩
  · rw [Target.afterPut_of_ne heq]
    exact ⟨⟨_, rfl, hnodir⟩, rfl⟩

lemma Writable.wrote (hws : ∀ w ∈ ws, w.1.parts ≠ []) (hrun : Wrote t ws u) (h : t.Writable p) :
    u.Writable p ∧ u.place? p = t.place? p := by
  induction hrun with
  | nil _ => exact ⟨h, rfl⟩
  | cons first _ ih =>
    obtain ⟨hfirst, hws⟩ := forall_mem_cons.mp hws
    obtain ⟨hwritable, hplace⟩ := h.write hfirst first
    obtain ⟨hwritable', hplace'⟩ := ih hws hwritable
    exact ⟨hwritable', hplace'.trans hplace⟩

lemma Wrote.read_eq (hrun : Wrote t ws u) (hws : ∀ w ∈ ws, w.1.parts ≠ [])
    (helse : ∀ w ∈ ws, u.place? w.1 ≠ u.place? p) {place : Place}
    (h : t.find p = .ok (.entry place (.file content now))) : u.read p = .ok (content, now) := by
  induction hrun with
  | nil t => simp only [read, get, h]
  | @cons t t1 u q content' now' ws first rest ih =>
    obtain ⟨hq, hws'⟩ := forall_mem_cons.mp hws
    obtain ⟨hne, helse'⟩ := forall_mem_cons.mp helse
    have hwritable : t.Writable p := ⟨_, h, by simp⟩
    obtain ⟨place', hplace', hfind⟩ := find_of_write hq first h (by simp)
    refine ih hws' helse' ?_
    rw [hfind, Target.afterPut_of_ne]
    rintro rfl
    -- both paths lead to one place before the run, and so they do behind it
    rw [(hwritable.wrote hws (.cons first rest)).2,
      ((writable_of_write first).wrote hws (.cons first rest)).2, hplace'] at hne
    exact hne (by simp [place?, h, Except.toOption])

/-- **After a run, a file holds what was written to it last.** -/
theorem Wrote.read {before : List (Path × List UInt8)}
    (hrun : Wrote t (before ++ (p, content) :: ws) u)
    (hws : ∀ w ∈ ws, w.1.parts ≠ []) (helse : ∀ w ∈ ws, u.place? w.1 ≠ u.place? p) :
    ∃ time, u.read p = .ok (content, time) := by
  obtain ⟨t', hlast⟩ := hrun.exists_of_append
  cases hlast with
  | @cons _ t1 _ _ _ now _ first rest =>
    obtain ⟨tgt, htgt, hnodir⟩ := writable_of_write first
    obtain rfl := Except.ok.inj (first.symm.trans (write_eq htgt hnodir now))
    exact ⟨now, rest.read_eq hws helse (find_put htgt hnodir content now)⟩

lemma Wrote.read_of_nodup (hrun : Wrote t ws u) (hws : ∀ w ∈ ws, w.1.parts ≠ [])
    (hplaces : (ws.map fun w => u.place? w.1).Nodup) {w : Path × List UInt8} (hw : w ∈ ws) :
    ∃ time, u.read w.1 = .ok (w.2, time) := by
  obtain ⟨before, after, rfl⟩ := append_of_mem hw
  obtain ⟨-, hws⟩ := forall_mem_append.mp hws
  rw [map_append, map_cons] at hplaces
  have hnew := (nodup_cons.mp (nodup_append.mp hplaces).2.1).1
  refine hrun.read (fun v hv => hws v (mem_cons_of_mem _ hv)) fun v hv heq => ?_
  exact hnew (mem_map.mpr ⟨v, hv, heq⟩)

lemma read_of_place?_eq (hp : p.parts ≠ []) (hq : q.parts ≠ []) (hplace : t.place? p = t.place? q)
    (h : t.read q = .ok file) : t.read p = .ok file := by
  unfold read get at h ⊢
  unfold place? at hplace
  rcases hfind : t.find q with f | tgt
  · simp [hfind] at h
  rcases hfind' : t.find p with f | tgt'
  · simp [hfind, hfind', Except.toOption] at hplace
  have heq : tgt'.place = tgt.place := by simpa [hfind, hfind', Except.toOption] using hplace
  rw [hfind] at h
  have hstands' := stands_of_find hfind' hp
  cases stands_of_find hfind hq with
  | vacant _ _ => cases h
  | @entry place e there _ =>
    obtain rfl : tgt' = .entry place e := by
      cases hstands' with
      | @entry place' e' there' _ =>
        obtain rfl : place' = place := heq
        rw [some.inj (there'.symm.trans there)]
      | @vacant front name es dir free =>
        obtain rfl : front ++ [name] = place := heq
        rw [at?_concat dir, free] at there
        cases there
    cases e <;> simp_all

end Tree

end CodeAtlas.Files
