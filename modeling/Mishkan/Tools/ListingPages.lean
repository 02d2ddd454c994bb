import Mishkan.Tools.FileListing

/-!
# Tools/ListingPages — the pages of a listing, and the cursors between them

A cursor is read as the offset it was written for (`cursorState_continuation`).  Following cursors
from the first page ends, with the view of the directory (`exists_pages`), and a cursor that was
given for another view is refused.  `specified_iff` says for which directories the listing is as
specified.
-/

namespace Mishkan.FileList

open Refusal Lines StackWalk List

variable {π : Type}

/-! ## Reading a cursor -/

section Cursors

variable {text digits : Text}

theorem underscored?_of_isDigit (hne : digits ≠ []) (h : digits.all Char.isDigit = true) :
    underscored? digits = digits.mapM Digits.decimal? := by
  induction digits with
  | nil => exact absurd rfl hne
  | cons c rest ih =>
    rw [all_cons, Bool.and_eq_true] at h
    cases rest with
    | nil =>
      rw [underscored?, mapM_cons, mapM_nil]
      cases Digits.decimal? c <;> rfl
    | cons d rest =>
      have hd : d ≠ '_' := by
        rintro rfl
        rw [all_cons, Bool.and_eq_true] at h
        exact absurd h.2.1 (by decide)
      rw [underscored?, ih (cons_ne_nil _ _) h.2]
      · exact mapM_cons.symm
      · exact cons_ne_nil _ _
      · exact fun _ hcons => hd (List.cons.inj hcons).1

theorem isPadding_of_isDigit {c : Char} (h : c.isDigit = true) : isPadding c = false := by
  have hspaces : spaces.all (fun c => !c.isDigit) = true := by decide
  rw [isPadding, Bool.and_eq_false_iff]
  left
  rw [isSpace, decide_eq_false_iff_not]
  intro hc
  have := all_eq_true.mp hspaces c hc
  rw [h] at this
  cases this

/-- **The digits of a number** are read as it. -/
theorem int?_toDigits (n : ℕ) : int? (Nat.toDigits 10 n) = some (n : ℤ) := by
  have hdigit : ∀ c ∈ Nat.toDigits 10 n, c.isDigit = true := fun c hc =>
    Nat.isDigit_of_mem_toDigits (by decide) (by decide) hc
  have hall : (Nat.toDigits 10 n).all Char.isDigit = true := all_eq_true.mpr hdigit
  have hstrip : ((Nat.toDigits 10 n).dropWhile isPadding).rdropWhile isPadding =
      Nat.toDigits 10 n := by
    rw [dropWhile_eq_self_iff.mpr, rdropWhile_eq_self_iff.mpr]
    · intro hne
      rw [isPadding_of_isDigit (hdigit _ (getLast_mem hne))]
      exact Bool.false_ne_true
    · intro hpos
      rw [isPadding_of_isDigit (hdigit _ (getElem_mem hpos))]
      exact Bool.false_ne_true
  have hnumber : (underscored? (Nat.toDigits 10 n)).map
      (fun digits => (digits.foldl (fun n d => 10 * n + d) 0 : ℕ)) = some n := by
    rw [underscored?_of_isDigit Nat.toDigits_ne_nil hall, Digits.foldl_decimal? hall 0,
      Nat.ofDigitChars_ten_toDigits]
  obtain ⟨c, rest, hcons⟩ := exists_cons_of_ne_nil (Nat.toDigits_ne_nil (n := n) (b := 10))
  have hc := hdigit c (hcons ▸ mem_cons_self)
  rw [int?, hstrip]
  dsimp only
  split
  · rename_i heq
    rw [hcons] at heq
    obtain ⟨rfl, -⟩ := List.cons.inj heq
    exact absurd hc (by decide)
  · rename_i heq
    rw [hcons] at heq
    obtain ⟨rfl, -⟩ := List.cons.inj heq
    exact absurd hc (by decide)
  · rw [hnumber]
    rfl

theorem cut?_append {before after : Text} (h : ':' ∉ before) :
    cut? (before ++ ':' :: after) = some (before, after) := by
  have hall : ∀ c ∈ before, decide (c ≠ ':') = true := fun c hc =>
    decide_eq_true fun heq => h (heq ▸ hc)
  rw [cut?, dropWhile_append_of_pos hall, dropWhile_cons_of_neg (by simp),
    takeWhile_append_of_pos hall, takeWhile_cons_of_neg (by simp), append_nil]

/-- **A cursor is read as what it was written of.** -/
theorem cursorState_continuation (queryDigest viewDigest : Hash16) (offset : ℕ) :
    cursorState (some (continuation queryDigest viewDigest offset)) queryDigest =
      .ok (offset, some viewDigest.1.toList) := by
  have htext : (continuation queryDigest viewDigest offset).toList = queryDigest.1.toList ++
      ':' :: (viewDigest.1.toList ++ ':' :: Nat.toDigits 10 offset) := by
    simp [continuation]
  have hlength : viewDigest.1.toList.length = 16 := viewDigest.2.1
  simp only [cursorState, htext, cut?_append queryDigest.2.2, cut?_append viewDigest.2.2,
    int?_toDigits, require, ok_bind]
  rw [refuseIf_of_not]
  · rfl
  · simp [hlength]

/-- The expected failure of an interface. -/
def IsMishkan (raised : Raised) : Prop := ∃ error, raised = .mishkan error

theorem raises_cursorState {cursor : Option String} {queryDigest : Hash16} :
    Raises IsMishkan (cursorState cursor queryDigest) := by
  cases cursor with
  | none => exact .ok _
  | some cursor =>
    have hfault : ∀ message category, IsMishkan (listFault message category) :=
      fun _ _ => ⟨_, rfl⟩
    refine .bind (.require (hfault _ _)) fun _ _ => .bind (.require (hfault _ _)) fun _ _ => ?_
    exact .bind (.require (hfault _ _)) fun _ _ => .bind (.refuseIf (hfault _ _)) fun _ _ => .ok _

end Cursors

/-! ## Views -/

/-- The entries with a property, in the order of their paths. -/
structure IsView (P : Entry → Prop) (view : List Entry) : Prop where
  sorted : view.Pairwise fun a b => bytes a.path < bytes b.path
  mem : ∀ e, e ∈ view ↔ P e

theorem IsView.unique {P : Entry → Prop} {view view' : List Entry} (h : IsView P view)
    (h' : IsView P view') : view = view' := by
  have hnodup : ∀ v : List Entry, v.Pairwise (fun a b => bytes a.path < bytes b.path) →
      v.Nodup := fun v hv => hv.imp fun hlt heq => absurd (heq ▸ hlt) (lt_irrefl _)
  refine List.Perm.eq_of_pairwise (fun a b _ _ hab hba => absurd hab hba.asymm) h.sorted
    h'.sorted ?_
  exact (perm_ext_iff_of_nodup (hnodup _ h.sorted) (hnodup _ h'.sorted)).mpr fun e =>
    (h.mem e).trans (h'.mem e).symm

theorem bytes_injective : Function.Injective bytes :=
  map_injective_iff.mpr fun _ _ => UInt8.toNat.inj

theorem posix_inj {path path' : List Name} (hne : path ≠ []) (hne' : path' ≠ [])
    (hpath : ∀ name ∈ path, IsName name) (hpath' : ∀ name ∈ path', IsName name)
    (h : posix path = posix path') : path = path' := by
  have hsplit : ∀ p : List Name, p ≠ [] → (∀ name ∈ p, IsName name) →
      (posix p).splitOn 0x2F = p := fun p hp hnames =>
    splitOn_intercalate _ (fun name hname => (hnames name hname).no_slash) hp
  exact (hsplit path hne hpath).symm.trans
    ((congrArg (List.splitOn 0x2F) h).trans (hsplit path' hne' hpath'))

section View

variable {adapter : FileListAdapter π} {query : Query π} {root : Node}

/-- What a directory is listed as. -/
def view (adapter : FileListAdapter π) (query : Query π) (root : Node) : List Entry :=
  (walk adapter query root).entries.insertionSort fun a b => bytes a.path ≤ bytes b.path

/-- The limit of the traversal is not reached. -/
def Traversed (adapter : FileListAdapter π) (query : Query π) (root : Node) : Prop :=
  (traversed adapter.library query root).length ≤ adapter.maxTraversalEntries

theorem walk_spec (h : Traversed adapter query root) :
    (walk adapter query root).traversalLimited = false ∧
      (walk adapter query root).entries = (traversed adapter.library query root).filterMap fun o =>
        kept adapter.library query o.1 o.1.length o.2 := by
  have hbound : 0 + ((looked adapter.library query).walk
      [⟨[], 0, root.fault, root.children⟩]).length ≤ adapter.maxTraversalEntries := by
    rw [Nat.zero_add]
    exact h
  obtain ⟨hlimited, hentries⟩ := walkLoop_spec adapter query
    { pending := [⟨[], 0, root.fault, root.children⟩] } rfl hbound
    (forall_mem_singleton.mpr rfl)
  exact ⟨hlimited, hentries.trans (nil_append _)⟩

/-- **The view of a directory** has what is asked for and reached, in order. -/
theorem isView_view (htree : IsTree root.children) (hdepth : 1 ≤ query.maxDepth)
    (h : Traversed adapter query root) :
    IsView (Reached adapter.library query root) (view adapter query root) := by
  obtain ⟨-, hentries⟩ := walk_spec h
  have hpaths : ∀ o ∈ traversed adapter.library query root,
      o.1 ≠ [] ∧ ∀ name ∈ o.1, IsName name := fun o ho => by
    obtain ⟨-, hat⟩ := mem_traversed.mp ho
    exact ⟨hat.ne_nil, hat.forall_isName htree (forall_mem_nil _)⟩
  have hdistinct : (walk adapter query root).entries.Pairwise fun a b => a.path ≠ b.path := by
    rw [hentries, pairwise_filterMap]
    have hnodup := pairwise_map.mp (nodup_traversed adapter.library query htree)
    refine List.Pairwise.imp_of_mem ?_ hnodup
    intro o o' ho ho' hne e he e' he' heq
    obtain ⟨-, -, -, rfl⟩ := kept_eq_some.mp he
    obtain ⟨-, -, -, rfl⟩ := kept_eq_some.mp he'
    obtain ⟨hne₁, hnames₁⟩ := hpaths o ho
    obtain ⟨hne₂, hnames₂⟩ := hpaths o' ho'
    exact hne (posix_inj hne₁ hne₂ hnames₁ hnames₂ heq)
  constructor
  · have hle := pairwise_insertionSort (fun a b : Entry => bytes a.path ≤ bytes b.path)
      (walk adapter query root).entries
    have hne : (view adapter query root).Pairwise fun a b => a.path ≠ b.path :=
      (perm_insertionSort _ _).symm.pairwise hdistinct fun hab => hab.symm
    exact hle.imp₂ (fun a b hab hne => lt_of_le_of_ne hab fun heq => hne (bytes_injective heq)) hne
  · intro e
    rw [view, mem_insertionSort, hentries, mem_filterMap]
    exact exists_kept_iff hdepth

end View

/-! ## Following the cursors -/

/-- The path of an entry is UTF-8. -/
def Encodable (e : Entry) : Prop := (decode? e.path).isSome

theorem sortedEntries_eq (entries : List Entry) : sortedEntries entries =
    if ∀ e ∈ entries, (decode? e.path).isSome then
      .ok (entries.insertionSort fun a b => bytes a.path ≤ bytes b.path)
    else .error (.valueError "'utf-8' codec can't encode character: surrogates not allowed") := by
  have hmap : (∀ e ∈ entries, (decode? e.path).isSome) ↔
      (entries.mapM fun e => encode? e.path).isSome := by
    induction entries with
    | nil => simp
    | cons e entries ih =>
      rw [forall_mem_cons, ih, mapM_cons, encode?]
      by_cases he : (decode? e.path).isSome
      · rw [if_pos he]
        cases entries.mapM fun e => encode? e.path <;> simp [he]
      · simp [he]
  rw [sortedEntries]
  split_ifs with h
  · obtain ⟨keys, hkeys⟩ := Option.isSome_iff_exists.mp (hmap.mp h)
    rw [hkeys]
    rfl
  · rw [hmap, Bool.not_eq_true, Option.isSome_eq_false_iff, Option.isNone_iff_eq_none] at h
    rw [h]
    rfl

section Listed

variable {adapter : FileListAdapter π} {arguments : Arguments π} {target other : Target}
  {node node' : Node} {cursor : Option String} {offset : ℕ} {expected : Option Text}

/-- The bound of a page. -/
def FileListAdapter.limit (adapter : FileListAdapter π) (arguments : Arguments π) : ℕ :=
  arguments.maxResults.getD adapter.maxResults

/-- The hash of a query. -/
def FileListAdapter.queryDigest (adapter : FileListAdapter π) (arguments : Arguments π) : Hash16 :=
  adapter.library.queryHash (arguments.withCursor none)

/-- The arguments of a listing are accepted. -/
structure Accepted (adapter : FileListAdapter π) (arguments : Arguments π) : Prop where
  links : arguments.followLinks.getD false = false
  pos : 1 ≤ adapter.limit arguments
  le : adapter.limit arguments ≤ adapter.maxResults

/-- A target is a directory. -/
def IsDirectory (target : Target) (node : Node) : Prop :=
  target.absolute = .present node ∧ node.objectType = .directory

theorem one_le_maxDepth (arguments : Arguments π) (library : ListLibrary π) :
    1 ≤ (arguments.query library).maxDepth := by
  simp only [Arguments.query]
  cases arguments.maxDepth with
  | none =>
    simp only [Option.map_none, Option.getD_none]
    split_ifs <;> decide
  | some bound => exact bound.2

/-- **What a listing does** with a directory. -/
theorem invoke_eq (h : Accepted adapter arguments) (hnode : IsDirectory target node) :
    adapter.invoke (arguments.withCursor cursor) target = (do
      let (offset, expected) ← cursorState cursor (adapter.queryDigest arguments)
      let entries ← sortedEntries (walk adapter (arguments.query adapter.library) node).entries
      refuseIf (expected.any (· ≠ (adapter.library.viewHash entries).1.toList)) <|
        listFault "listed view changed since the continuation cursor was issued"
          "changed_during_read"
      refuseIf (entries.length < offset) <|
        listFault "listing cursor is beyond the available result set" "invalid_query"
      return adapter.page (arguments.withCursor cursor) target.relative (adapter.limit arguments)
        offset (adapter.queryDigest arguments) (walk adapter (arguments.query adapter.library) node)
        entries) := by
  obtain ⟨hpresent, hdirectory⟩ := hnode
  obtain ⟨hlinks, hpos, hle⟩ := h
  have hlimit : ¬ ((arguments.withCursor cursor).maxResults.getD adapter.maxResults < 1 ∨
      adapter.maxResults < (arguments.withCursor cursor).maxResults.getD adapter.maxResults) :=
    fun hbad => hbad.elim (not_lt.mpr hpos) (not_lt.mpr hle)
  have hlink : ¬ ((arguments.withCursor cursor).followLinks.getD false = true) := by
    rw [Bool.not_eq_true]
    exact hlinks
  rw [FileListAdapter.invoke, hpresent]
  simp only [Bool.false_eq_true, not_false_eq_true, refuseIf_of_not, ok_bind, require, hdirectory,
    ne_eq, not_true_eq_false, hlink]
  rw [refuseIf_of_not hlimit]
  rfl

/-- The refusal of a cursor for another view. -/
def changedDuringRead : Raised :=
  listFault "listed view changed since the continuation cursor was issued" "changed_during_read"

theorem sortedEntries_walk (hview : ∀ e ∈ view adapter (arguments.query adapter.library) node,
    Encodable e) : sortedEntries (walk adapter (arguments.query adapter.library) node).entries =
      .ok (view adapter (arguments.query adapter.library) node) := by
  rw [sortedEntries_eq, if_pos]
  · rfl
  · exact fun e he => hview e (mem_insertionSort _ |>.mpr he)

/-- **A page** at an offset of the view. -/
theorem invoke_eq_page (h : Accepted adapter arguments) (hnode : IsDirectory target node)
    (hview : ∀ e ∈ view adapter (arguments.query adapter.library) node, Encodable e)
    (hcursor : cursorState cursor (adapter.queryDigest arguments) = .ok (offset, expected))
    (hexpected : ∀ text ∈ expected, text = (adapter.library.viewHash
      (view adapter (arguments.query adapter.library) node)).1.toList)
    (hoffset : offset ≤ (view adapter (arguments.query adapter.library) node).length) :
    adapter.invoke (arguments.withCursor cursor) target = .ok
      (adapter.page (arguments.withCursor cursor) target.relative (adapter.limit arguments) offset
        (adapter.queryDigest arguments) (walk adapter (arguments.query adapter.library) node)
        (view adapter (arguments.query adapter.library) node)) := by
  rw [invoke_eq h hnode, hcursor, ok_bind]
  dsimp only
  rw [sortedEntries_walk hview, ok_bind, refuseIf_of_not, ok_bind,
    refuseIf_of_not (not_lt.mpr hoffset), ok_bind]
  · rfl
  · rw [Option.any_eq_true]
    rintro ⟨text, htext, hne⟩
    rw [decide_eq_true_eq] at hne
    exact hne (hexpected text htext)

/-- What a page gives of a view. -/
theorem page_spec (adapter : FileListAdapter π) (arguments : Arguments π) (relative : String)
    (limit : ℕ) (queryDigest : Hash16) (w : Walk) {entries : List Entry}
    (hoffset : offset ≤ entries.length) :
    let page := adapter.page arguments relative limit offset queryDigest w entries
    page.entries = (entries.drop offset).take limit ∧
      page.continuationCursor = if offset + limit < entries.length then
        some (continuation queryDigest (adapter.library.viewHash entries) (offset + limit))
      else none := by
  refine ⟨rfl, ?_⟩
  have hlength : ((entries.drop offset).take limit).length =
      min limit (entries.length - offset) := by
    rw [length_take, length_drop]
  simp only [FileListAdapter.page, hlength]
  by_cases hmore : offset + limit < entries.length
  · rw [if_pos hmore, Nat.min_eq_left (by omega), if_pos (by simpa using hmore)]
  · rw [if_neg hmore, if_neg]
    omega

/-- The pages that follow one another by their cursors, to the last one. -/
inductive Pages (adapter : FileListAdapter π) (arguments : Arguments π) (target : Target) :
    Option String → List (Listing π) → Prop where
  | last {cursor : Option String} {page : Listing π}
    (h : adapter.invoke (arguments.withCursor cursor) target = .ok page)
    (hlast : page.continuationCursor = none) : Pages adapter arguments target cursor [page]
  | next {cursor : Option String} {page : Listing π} {next : String} {pages : List (Listing π)}
    (h : adapter.invoke (arguments.withCursor cursor) target = .ok page)
    (hnext : page.continuationCursor = some next)
    (hrest : Pages adapter arguments target (some next) pages) :
    Pages adapter arguments target cursor (page :: pages)

/-- **Following the cursors ends**, with the view from an offset on. -/
theorem exists_pages (h : Accepted adapter arguments) (hnode : IsDirectory target node)
    (hview : ∀ e ∈ view adapter (arguments.query adapter.library) node, Encodable e)
    (hcursor : cursorState cursor (adapter.queryDigest arguments) = .ok (offset, expected))
    (hexpected : ∀ text ∈ expected, text = (adapter.library.viewHash
      (view adapter (arguments.query adapter.library) node)).1.toList)
    (hoffset : offset ≤ (view adapter (arguments.query adapter.library) node).length) :
    ∃ pages, Pages adapter arguments target cursor pages ∧
      pages.flatMap Listing.entries =
        (view adapter (arguments.query adapter.library) node).drop offset := by
  induction hleft : (view adapter (arguments.query adapter.library) node).length - offset
    using Nat.strong_induction_on generalizing cursor offset expected with
  | _ left ih =>
    have hpage := invoke_eq_page h hnode hview hcursor hexpected hoffset
    obtain ⟨hentries, hnext⟩ := page_spec adapter (arguments.withCursor cursor) target.relative
      (adapter.limit arguments) (adapter.queryDigest arguments)
      (walk adapter (arguments.query adapter.library) node) hoffset
    by_cases hmore : offset + adapter.limit arguments <
        (view adapter (arguments.query adapter.library) node).length
    · rw [if_pos hmore] at hnext
      have hpos := h.pos
      obtain ⟨pages, hpages, hrest⟩ := ih _ (by omega)
        (cursorState_continuation (adapter.queryDigest arguments) (adapter.library.viewHash
          (view adapter (arguments.query adapter.library) node))
          (offset + adapter.limit arguments))
        (fun text htext => (Option.some.inj htext).symm) hmore.le rfl
      refine ⟨_, .next hpage hnext hpages, ?_⟩
      rw [flatMap_cons, hrest, hentries, ← drop_drop, take_append_drop]
    · rw [if_neg hmore] at hnext
      refine ⟨_, .last hpage hnext, ?_⟩
      rw [flatMap_singleton, hentries, take_of_length_le]
      rw [length_drop]
      omega

/-- What a cursor for another view is answered with. -/
theorem invoke_eq_changed_iff (h : Accepted adapter arguments) (hnode : IsDirectory target node)
    {viewDigest : Hash16} :
    adapter.invoke (arguments.withCursor
        (some (continuation (adapter.queryDigest arguments) viewDigest offset))) target =
          .error changedDuringRead ↔
      (∀ e ∈ view adapter (arguments.query adapter.library) node, Encodable e) ∧
        viewDigest ≠ adapter.library.viewHash
          (view adapter (arguments.query adapter.library) node) := by
  rw [invoke_eq h hnode, cursorState_continuation, ok_bind, sortedEntries_eq]
  dsimp only
  split_ifs with hencodable
  · rw [ok_bind]
    have hview : ∀ e ∈ view adapter (arguments.query adapter.library) node, Encodable e :=
      fun e he => hencodable e ((mem_insertionSort _).mp he)
    change ((refuseIf (Option.any _ (some viewDigest.1.toList) = true) changedDuringRead) >>= _) =
      _ ↔ _
    by_cases hdigest : viewDigest = adapter.library.viewHash
      (view adapter (arguments.query adapter.library) node)
    · refine iff_of_false ?_ fun hne => hne.2 hdigest
      rw [refuseIf_of_not, ok_bind]
      · by_cases hoffset :
          (view adapter (arguments.query adapter.library) node).length < offset
        · change (refuseIf ((view adapter (arguments.query adapter.library) node).length < offset)
            _ >>= _) ≠ _
          rw [refuseIf_of hoffset]
          intro heq
          have hraised : listFault "listing cursor is beyond the available result set"
            "invalid_query" = changedDuringRead := Except.error.inj heq
          exact absurd hraised (by decide)
        · change (refuseIf ((view adapter (arguments.query adapter.library) node).length < offset)
            _ >>= _) ≠ _
          rw [refuseIf_of_not hoffset]
          intro heq
          cases heq
      · rw [hdigest]
        simp [view]
    · refine iff_of_true ?_ ⟨hview, hdigest⟩
      rw [refuseIf_of]
      · rfl
      · simp only [Option.any_some, decide_eq_true_eq]
        exact fun htext => hdigest (Subtype.ext (String.toList_inj.mp htext))
  · refine iff_of_false (fun heq => by cases heq) fun hview => hencodable fun e he => ?_
    exact hview.1 e ((mem_insertionSort _).mpr he)

/-- **A listing raises refusals only**, where its root and its paths allow it. -/
theorem raises_invoke (hdenied : target.absolute ≠ .denied)
    (hview : ∀ node, IsDirectory target node → Accepted adapter arguments →
      ∀ e ∈ view adapter (arguments.query adapter.library) node, Encodable e)
    (cursor : Option String) :
    Raises IsMishkan (adapter.invoke (arguments.withCursor cursor) target) := by
  have hfault : ∀ message category details, IsMishkan (listFault message category details) :=
    fun _ _ _ => ⟨_, rfl⟩
  rw [FileListAdapter.invoke]
  refine .bind (fun _ hraised => ?_) fun _ _ => .bind (.require (hfault _ _ _)) fun node hpresent =>
    .bind (.refuseIf (hfault _ _ _)) fun _ hdirectory => .bind (.refuseIf (hfault _ _ _))
    fun _ hlinks => ?_
  · cases htarget : target.absolute with
    | denied => exact absurd htarget hdenied
    | _ =>
      rw [htarget] at hraised
      cases hraised
  · refine .bind (.refuseIf (hfault _ _ _)) fun _ hlimit => .bind raises_cursorState fun _ _ =>
      .bind ?_ fun _ _ => .bind (.refuseIf (hfault _ _ _)) fun _ _ =>
      .bind (.refuseIf (hfault _ _ _)) fun _ _ => .ok _
    have hnode : IsDirectory target node := by
      rw [require_eq_ok] at hpresent
      rw [refuseIf_eq_ok, not_not] at hdirectory
      refine ⟨?_, hdirectory⟩
      cases htarget : target.absolute with
      | present found =>
        rw [htarget] at hpresent
        rw [Option.some.inj hpresent]
      | _ =>
        rw [htarget] at hpresent
        cases hpresent
    have haccepted : Accepted adapter arguments := by
      rw [refuseIf_eq_ok] at hlinks hlimit
      rw [not_or, not_lt, not_lt] at hlimit
      exact ⟨Bool.not_eq_true _ |>.mp hlinks, hlimit.1, hlimit.2⟩
    have hsorted := sortedEntries_walk (hview node hnode haccepted)
    change Raises IsMishkan (sortedEntries
      (walk adapter (arguments.query adapter.library) node).entries)
    rw [hsorted]
    exact .ok _

end Listed

/-! ## When a listing is as specified -/

section Specified

variable {adapter : FileListAdapter π} {arguments : Arguments π} {target other : Target}

/-- **The specification of a listing** of a target that may become another between two pages. -/
structure Specified (adapter : FileListAdapter π) (arguments : Arguments π)
    (target other : Target) : Prop where
  errors : ∀ cursor, Raises IsMishkan (adapter.invoke (arguments.withCursor cursor) target)
  pages : ∀ node, IsDirectory target node → Accepted adapter arguments →
    ∃ pages, Pages adapter arguments target none pages ∧
      IsView (Listed adapter.library (arguments.query adapter.library) node)
        (pages.flatMap Listing.entries)
  changed : ∀ node node', IsDirectory target node → IsDirectory other node' →
    ∀ cursor page next, adapter.invoke (arguments.withCursor cursor) target = .ok page →
      page.continuationCursor = some next →
      ¬ (∀ e, Reached adapter.library (arguments.query adapter.library) node e ↔
        Reached adapter.library (arguments.query adapter.library) node' e) →
      adapter.invoke (arguments.withCursor (some next)) other = .error changedDuringRead

/-- A tree of files, of which not too many are looked at. -/
def Traversable (adapter : FileListAdapter π) (arguments : Arguments π) (target : Target) : Prop :=
  ∀ node, target.absolute = .present node → IsTree node.children ∧
    Traversed adapter (arguments.query adapter.library) node

/-- What a listing needs of its targets. -/
structure Listable (adapter : FileListAdapter π) (arguments : Arguments π)
    (target other : Target) : Prop where
  stated : target.absolute ≠ .denied
  reachable : ∀ node, IsDirectory target node → Accepted adapter arguments → ∀ e,
    Listed adapter.library (arguments.query adapter.library) node e →
      Reached adapter.library (arguments.query adapter.library) node e
  encodable : ∀ node, IsDirectory target node → Accepted adapter arguments → ∀ e,
    Reached adapter.library (arguments.query adapter.library) node e → Encodable e
  distinct : ∀ node node', IsDirectory target node → IsDirectory other node' →
    Accepted adapter arguments → ∀ v v',
      IsView (Reached adapter.library (arguments.query adapter.library) node) v →
      IsView (Reached adapter.library (arguments.query adapter.library) node') v' →
      v ≠ v' → adapter.limit arguments < v.length →
      (∀ e ∈ v', Encodable e) ∧ adapter.library.viewHash v ≠ adapter.library.viewHash v'

variable {node : Node}

theorem Traversable.isView (h : Traversable adapter arguments target)
    (hnode : IsDirectory target node) :
    IsView (Reached adapter.library (arguments.query adapter.library) node)
      (view adapter (arguments.query adapter.library) node) := by
  obtain ⟨htree, htraversed⟩ := h node hnode.1
  exact isView_view htree (one_le_maxDepth arguments adapter.library) htraversed

/-- A listing that has a page gives accepted arguments. -/
theorem accepted_of_invoke {page : Listing π} {cursor : Option String}
    (h : adapter.invoke (arguments.withCursor cursor) target = .ok page) :
    Accepted adapter arguments := by
  simp only [FileListAdapter.invoke, bind_eq_ok, refuseIf_eq_ok, require_eq_ok] at h
  obtain ⟨-, -, -, -, -, -, -, hlinks, -, hlimit, -⟩ := h
  rw [not_or, not_lt, not_lt] at hlimit
  exact ⟨Bool.not_eq_true _ |>.mp hlinks, hlimit.1, hlimit.2⟩

/-- A page is one at an offset of the view. -/
theorem exists_of_invoke {page : Listing π} {cursor : Option String}
    (hnode : IsDirectory target node)
    (h : adapter.invoke (arguments.withCursor cursor) target = .ok page) :
    (∀ e ∈ view adapter (arguments.query adapter.library) node, Encodable e) ∧
      ∃ offset, page.entries = ((view adapter (arguments.query adapter.library) node).drop
          offset).take (adapter.limit arguments) ∧
        ∀ next ∈ page.continuationCursor, ∃ start, next = continuation
          (adapter.queryDigest arguments) (adapter.library.viewHash
            (view adapter (arguments.query adapter.library) node)) start ∧
          adapter.limit arguments <
            (view adapter (arguments.query adapter.library) node).length := by
  rw [invoke_eq (accepted_of_invoke h) hnode] at h
  simp only [bind_eq_ok, refuseIf_eq_ok] at h
  obtain ⟨⟨offset, expected⟩, -, entries, hentries, _, -, _, hoffset, hpage⟩ := h
  rw [sortedEntries_eq] at hentries
  split_ifs at hentries with hencodable
  obtain rfl := Except.ok.inj hentries
  obtain rfl := Except.ok.inj hpage
  obtain ⟨hpageEntries, hnext⟩ := page_spec adapter (arguments.withCursor cursor) target.relative
    (adapter.limit arguments) (adapter.queryDigest arguments)
    (walk adapter (arguments.query adapter.library) node) (not_lt.mp hoffset)
  refine ⟨fun e he => hencodable e ((mem_insertionSort _).mp he), offset, hpageEntries, ?_⟩
  intro next hmem
  rw [hnext] at hmem
  split_ifs at hmem with hmore
  · exact ⟨_, (Option.mem_some_iff.mp hmem).symm, lt_of_le_of_lt (Nat.le_add_left _ _) hmore⟩
  · cases hmem

/-- The entries of the pages are of the view. -/
theorem Pages.mem_view {cursor : Option String} {pages : List (Listing π)}
    (h : Pages adapter arguments target cursor pages) (hnode : IsDirectory target node) {e : Entry}
    (he : e ∈ pages.flatMap Listing.entries) :
    e ∈ view adapter (arguments.query adapter.library) node := by
  induction h with
  | last hinvoke _ =>
    obtain ⟨-, offset, hentries, -⟩ := exists_of_invoke hnode hinvoke
    rw [flatMap_singleton, hentries] at he
    exact mem_of_mem_drop (mem_of_mem_take he)
  | next hinvoke _ _ ih =>
    rw [flatMap_cons, mem_append] at he
    rcases he with he | he
    · obtain ⟨-, offset, hentries, -⟩ := exists_of_invoke hnode hinvoke
      rw [hentries] at he
      exact mem_of_mem_drop (mem_of_mem_take he)
    · exact ih he

/-- **A listing is as specified along exactly what it needs of its targets**: the root answers, what
is asked for can be reached, paths are UTF-8, and different views have different hashes. -/
theorem specified_iff (htarget : Traversable adapter arguments target)
    (hother : Traversable adapter arguments other) :
    Specified adapter arguments target other ↔ Listable adapter arguments target other := by
  constructor
  · intro h
    have hencodable : ∀ node, IsDirectory target node → Accepted adapter arguments →
        ∀ e ∈ view adapter (arguments.query adapter.library) node, Encodable e := by
      intro node hnode haccepted
      obtain ⟨pages, hpages, -⟩ := h.pages node hnode haccepted
      cases hpages with
      | last hinvoke _ => exact (exists_of_invoke hnode hinvoke).1
      | next hinvoke _ _ => exact (exists_of_invoke hnode hinvoke).1
    refine ⟨fun hdenied => ?_, fun node hnode haccepted e he => ?_,
      fun node hnode haccepted e he => ?_, ?_⟩
    · have hraised : adapter.invoke (arguments.withCursor none) target = .error .osError := by
        rw [FileListAdapter.invoke, hdenied]
        rfl
      obtain ⟨error, herror⟩ := h.errors none _ hraised
      cases herror
    · obtain ⟨pages, hpages, hview⟩ := h.pages node hnode haccepted
      exact ((htarget.isView hnode).mem e).mp
        (hpages.mem_view hnode ((hview.mem e).mpr he))
    · exact hencodable node hnode haccepted e (((htarget.isView hnode).mem e).mpr he)
    · intro node node' hnode hnode' haccepted v v' hv hv' hne hlimit
      obtain rfl := hv.unique (htarget.isView hnode)
      obtain rfl := hv'.unique (hother.isView hnode')
      have hcursor : cursorState none (adapter.queryDigest arguments) = .ok (0, none) := rfl
      have hfirst := invoke_eq_page haccepted hnode (hencodable node hnode haccepted) hcursor
        (fun _ hmem => by cases hmem) (Nat.zero_le _)
      obtain ⟨-, hnext⟩ := page_spec adapter (arguments.withCursor none) target.relative
        (adapter.limit arguments) (adapter.queryDigest arguments)
        (walk adapter (arguments.query adapter.library) node)
        (Nat.zero_le (view adapter (arguments.query adapter.library) node).length)
      rw [Nat.zero_add, if_pos hlimit] at hnext
      have hchanged := h.changed node node' hnode hnode' none _ _ hfirst hnext fun hsame => hne <|
        hv.unique ⟨hv'.sorted, fun e => (hv'.mem e).trans (hsame e).symm⟩
      obtain ⟨hencodes, hdigest⟩ := (invoke_eq_changed_iff haccepted hnode').mp hchanged
      exact ⟨hencodes, hdigest⟩
  · intro h
    have hencodable : ∀ node, IsDirectory target node → Accepted adapter arguments →
        ∀ e ∈ view adapter (arguments.query adapter.library) node, Encodable e :=
      fun node hnode haccepted e he =>
        h.encodable node hnode haccepted e (((htarget.isView hnode).mem e).mp he)
    refine ⟨raises_invoke h.stated hencodable, fun node hnode haccepted => ?_, ?_⟩
    · have hcursor : cursorState none (adapter.queryDigest arguments) = .ok (0, none) := rfl
      obtain ⟨pages, hpages, hentries⟩ := exists_pages haccepted hnode
        (hencodable node hnode haccepted) hcursor (fun _ hmem => by cases hmem) (Nat.zero_le _)
      have hview := htarget.isView hnode
      refine ⟨pages, hpages, ?_⟩
      rw [hentries, drop_zero]
      exact ⟨hview.sorted, fun e => (hview.mem e).trans
        ⟨Reached.listed, h.reachable node hnode haccepted e⟩⟩
    · intro node node' hnode hnode' cursor page next hinvoke hnext hchanged
      have haccepted := accepted_of_invoke hinvoke
      obtain ⟨-, offset, -, hcontinues⟩ := exists_of_invoke hnode hinvoke
      obtain ⟨start, rfl, hlimit⟩ := hcontinues next hnext
      have hview := htarget.isView hnode
      have hview' := hother.isView hnode'
      refine (invoke_eq_changed_iff haccepted hnode').mpr ?_
      refine h.distinct node node' hnode hnode' haccepted _ _ hview hview' (fun heq => ?_) hlimit
      exact hchanged fun e => (hview.mem e).symm.trans (heq ▸ hview'.mem e)

end Specified

/-! ## A directory of files -/

/-- Everything matches; the hash of a view says whether it has a file `b`. -/
def plainAdapter : FileListAdapter String where
  library :=
    { fnmatchcase _ _ := true
      every := "*"
      queryHash _ := ⟨"0123456789abcdef", by decide⟩
      viewHash entries := if entries.any (·.path = [0x62]) then ⟨"0000000000000000", by decide⟩
        else ⟨"1111111111111111", by decide⟩ }
  maxResults := 1000
  maxTraversalEntries := 100000

/-- A directory of empty files. -/
def folder (names : List Name) : Target :=
  ⟨".", .present (.directory none (names.map fun name => (name, none, .file 0)))⟩

theorem plainAdapter_accepts : Accepted plainAdapter { path := "." } :=
  ⟨rfl, by decide, by decide⟩

/-- **A name that is no UTF-8** ends a listing with an error of the language. -/
theorem latin_name_raises :
    plainAdapter.invoke { path := "." } (folder [[0x63, 0x61, 0x66, 0xE9]]) =
        .error (.valueError "'utf-8' codec can't encode character: surrogates not allowed") ∧
      ¬ Specified plainAdapter { path := "." } (folder [[0x63, 0x61, 0x66, 0xE9]])
        (folder [[0x63, 0x61, 0x66, 0xE9]]) := by
  have hraised : plainAdapter.invoke { path := "." } (folder [[0x63, 0x61, 0x66, 0xE9]]) =
      .error (.valueError "'utf-8' codec can't encode character: surrogates not allowed") := by
    have hwalk : walk plainAdapter (Arguments.query { path := "." } plainAdapter.library)
        (.directory none [([0x63, 0x61, 0x66, 0xE9], none, .file 0)]) =
          visitDirectory plainAdapter (Arguments.query { path := "." } plainAdapter.library)
            (rootDirectory (.directory none [([0x63, 0x61, 0x66, 0xE9], none, .file 0)]))
            { pending := [] } :=
      (walkLoop_cons rfl rfl).trans (walkLoop_nil rfl)
    have hnode : IsDirectory (folder [[0x63, 0x61, 0x66, 0xE9]])
        (.directory none [([0x63, 0x61, 0x66, 0xE9], none, .file 0)]) := ⟨rfl, rfl⟩
    refine (invoke_eq plainAdapter_accepts hnode).trans ?_
    rw [cursorState, ok_bind]
    dsimp only
    rw [hwalk, sortedEntries_eq, if_neg (by decide)]
    rfl
  refine ⟨hraised, fun hspecified => ?_⟩
  obtain ⟨error, herror⟩ := hspecified.errors none _ hraised
  cases herror

theorem traversable_folder {names : List Name} (hnodup : names.Nodup)
    (hnames : ∀ name ∈ names, IsName name) (hshort : names.length ≤ 100000)
    (arguments : Arguments String) : Traversable plainAdapter arguments (folder names) := by
  intro node hnode
  obtain rfl := Stat.present.inj hnode
  have hfile : ∀ child ∈ names.map fun name => ((name, none, .file 0) : Child),
      ∃ name ∈ names, child = (name, none, .file 0) := by
    simp only [mem_map]
    rintro child ⟨name, hname, rfl⟩
    exact ⟨name, hname, rfl⟩
  constructor
  · refine .intro (by simpa [Node.children, Function.comp_def] using hnodup)
      (fun child hchild => ?_) fun child hchild => ?_
    · obtain ⟨name, hname, rfl⟩ := hfile child hchild
      exact hnames name hname
    · obtain ⟨name, -, rfl⟩ := hfile child hchild
      exact .intro nodup_nil (forall_mem_nil _) (forall_mem_nil _)
  · have hempty : (looked plainAdapter.library (arguments.query plainAdapter.library)).pushed
        (rootDirectory (.directory none (names.map fun n => (n, none, .file 0)))) [] = [] := by
      rw [Visit.pushed, append_nil, reverse_eq_nil_iff]
      dsimp only [looked]
      refine (if_pos rfl).trans (flatMap_eq_nil_iff.mpr fun child hchild => ?_)
      obtain ⟨name, -, rfl⟩ := hfile child ((mem_insertionSort _).mp hchild)
      exact ite_self _
    rw [Traversed, traversed, Visit.walk_cons, hempty, Visit.walk_nil, append_nil]
    change ((ordered _).map _).length ≤ 100000
    rw [length_map, ordered, length_insertionSort]
    exact (length_map _).trans_le hshort

/-- A file that is renamed between two pages. -/
theorem renamed_specified_iff :
    Specified plainAdapter { path := ".", maxResults := some 1 } (folder [[0x61], [0x62]])
        (folder [[0x61], [0x63]]) ↔
      Listable plainAdapter { path := ".", maxResults := some 1 } (folder [[0x61], [0x62]])
        (folder [[0x61], [0x63]]) :=
  have hname : ∀ c ∈ [(0x61 : UInt8), 0x62, 0x63], IsName [c] := fun c hc => by
    revert c
    simp only [forall_mem_cons]
    exact ⟨⟨by decide, by decide, by decide, by decide⟩,
      ⟨by decide, by decide, by decide, by decide⟩,
      ⟨by decide, by decide, by decide, by decide⟩, forall_mem_nil _⟩
  specified_iff (traversable_folder (by decide) (by simp [hname]) (by decide) _)
    (traversable_folder (by decide) (by simp [hname]) (by decide) _)

end Mishkan.FileList
