import Stencil.Proofs.Render.Concatenation
import Stencil.Proofs.Render.Dependence
import Stencil.Proofs.Template.Respelling
/-! A loop over two lists joined in one does what a loop over each of them does, if nothing asks for the
place of a pass. -/
namespace Stencil

open Node (Reachable)

/-- The names that tell the place of a pass: its own, and that of the scope around the loop, which has
the names of the passes further out. -/
def Loop.placeKeys : List Text := [indexKey, firstKey, lastKey, parentKey]

/-- No path that can be reached from a tree has such a name in it. -/
def Node.Placeless (partials : Partials) (ns : List Node) : Prop :=
  ∀ l, Reachable partials ns l → ∀ path ∈ l.path?, ∀ key ∈ Loop.placeKeys, key ∉ path.splitOn '.'

/-- An argument behind which a tag can be closed at once. -/
structure Text.ClosesTag (v : Text) : Prop where
  ne_nil : v ≠ []
  trimmed : v.Trimmed
  closes : ¬ closeBraces <:+: v ++ (['\x7d'] : Text)

/-- A loop over what a path stands for. -/
def loopOf (path body : Text) : Text := tagOf ("#each " ++ path) ++ body ++ tagOf "/each"

section Passes

variable {partials : Partials} {ns body : List Node} {s : Scope} {key : Text}
  {keys : Text → Prop} {xs ys : List Datum} {location : Location} {a b c : Text}

theorem Node.Placeless.asked (h : Node.Placeless partials ns) (hkey : Node.Asked partials ns key) :
    key ∉ Loop.placeKeys := by
  obtain ⟨l, path, rest, hl, hpath, hsplit⟩ := hkey
  intro hplace
  exact h l hl path hpath key hplace (hsplit ▸ List.mem_cons_self)

/-- Any other name has the same value wherever the pass stands. -/
theorem Scope.lookup_child_moved (hkey : key ∉ Loop.placeKeys) (s : Scope) (item : Datum)
    (i n i' n' : Int) : (s.child item i n).lookup key = (s.child item i' n').lookup key := by
  simp only [Loop.placeKeys, List.mem_cons, List.not_mem_nil, or_false, not_or] at hkey
  obtain ⟨hindex, hfirst, hlast, -⟩ := hkey
  simp only [child, lookup, Layer.get?, Option.bind_some, Loop.get?, hindex, hfirst, hlast, if_false]
  rfl

theorem Scope.agreeOn_passes_append (hkeys : ∀ key, keys key → key ∉ Loop.placeKeys) (s : Scope)
    (xs ys : List Datum) :
    List.Forall₂ (AgreeOn keys) (Render.passes s (xs ++ ys))
      (Render.passes s xs ++ Render.passes s ys) := by
  have hmoved : ∀ (item : Datum) (i n i' n' : Int),
      (s.child item i n).AgreeOn keys (s.child item i' n') :=
    fun item i n i' n' key hkey => lookup_child_moved (hkeys key hkey) s item i n i' n'
  simp only [Render.passes_eq, List.mapIdx_append]
  exact List.rel_append (forall₂_mapIdx fun k item _ => hmoved item _ _ _ _)
    (forall₂_mapIdx fun k item _ => hmoved item _ _ _ _)

namespace Render

/-- A loop runs its body once in each of its passes. -/
theorem run_each (settings : Settings) (partials : Partials) (location : Location) (body : List Node)
    (h : (s.resolve a).items? = some xs) :
    run settings partials [.each location a body] s =
      .concat ((passes s xs).map (run settings partials body)) := by
  rw [run_eq, nodes_each, h]
  exact Trace.append_empty _

/-- In scopes that agree on what can be asked for, a body does the same. -/
theorem run_congr (settings : Settings) (h : Node.Placeless partials ns) {s t : Scope}
    (hst : s.AgreeOn (Node.Asked partials ns) t) :
    run settings partials ns s = run settings partials ns t := by
  have hparent : ∀ l path, Reachable partials ns l → l.path? = some path →
      Loop.parentKey ∉ path.splitOn '.' :=
    fun l path hl hpath => h l hl path hpath Loop.parentKey (by simp [Loop.placeKeys])
  exact Walk.run_related (simulation_agreeOn settings hparent) (fun _ _ => rfl) hst

theorem run_each_append (settings : Settings) (location : Location)
    (h : Node.Placeless partials body) (ha : (s.resolve a).items? = some xs)
    (hb : (s.resolve b).items? = some ys) (hc : (s.resolve c).items? = some (xs ++ ys)) :
    run settings partials [.each location c body] s =
      run settings partials [.each location a body] s ++
        run settings partials [.each location b body] s := by
  have hpasses := Scope.agreeOn_passes_append (fun _ hkey => h.asked hkey) s xs ys
  calc
    run settings partials [.each location c body] s =
        .concat ((passes s (xs ++ ys)).map (run settings partials body)) :=
      run_each settings partials location body hc
    _ = .concat ((passes s xs ++ passes s ys).map (run settings partials body)) :=
      Trace.compatible_eq.concat (hpasses.imp fun _ _ => run_congr settings h)
    _ = .concat ((passes s xs).map (run settings partials body)) ++
        .concat ((passes s ys).map (run settings partials body)) := by
      rw [List.map_append, Trace.concat_append]
    _ = _ := by
      rw [run_each settings partials location body ha, run_each settings partials location body hb]

end Render

end Passes

section Source

variable {v body : Text} {file : Option Text} {t : Template}

namespace Text.ClosesTag

theorem lexeme?_opener (h : v.ClosesTag) :
    (Piece.tag ("#each " ++ v)).lexeme? = some (.eachOpen v) := by
  obtain ⟨hne, htrimmed, -⟩ := h
  have hstrip : strip ("#each " ++ v) = "#each " ++ v :=
    strip_of_trimmed (htrimmed.append hne (c := '#') rfl "each ")
  have hlexeme : Lexeme.ofContent ("#each " ++ v) = .eachOpen v :=
    (Lexeme.Worded.eachOpen v).ofContent htrimmed
  obtain ⟨d, v, rfl⟩ := List.exists_cons_of_ne_nil hne
  rw [Piece.lexeme?, hstrip, hlexeme]
  rfl

/-- The parts of a loop are its opener, those of its body, and its closer. -/
theorem divide_loopOf (h : v.ClosesTag) (hclosed : ∀ rest, .unclosed rest ∉ Piece.divide body)
    (hlast : body.getLast? ≠ some ↑ '\x7b') :
    Piece.divide (loopOf v body) =
      .tag ("#each " ++ v) :: (Piece.divide body ++ [.tag "/each"]) := by
  have hopener : (Piece.tag ("#each " ++ v)).Proper := Lexeme.proper_front (by decide) h.closes
  have hcloser : (Piece.tag "/each").Proper := Piece.proper_tag_iff.2 (by decide)
  rw [loopOf, List.append_assoc, Piece.divide_tag_append hopener,
    Piece.divide_append hclosed fun hseam => hlast hseam.1, Piece.divide_tag hcloser,
    Piece.join_tag]

end Text.ClosesTag

/-- A loop around a source that parses is parsed as a loop around its tree. -/
theorem Template.exists_parse_loopOf (file : Option Text) {fileB : Option Text} (h : v.ClosesTag)
    (hbody : parse fileB body = .ok t) (hlast : body.getLast? ≠ some ↑ '\x7b') :
    ∃ u, parse file (loopOf v body) = .ok u ∧
      Node.lexemes u.nodes = Node.lexemes [.each .unknown v t.nodes] := by
  have hlexemes := lexemes_of_parse hbody
  refine exists_parse_of_lexemes file ?_
  rw [h.divide_loopOf (Piece.unclosed_not_mem hlexemes) hlast, Node.lexemes_each]
  simp only [List.map_cons, List.map_append, h.lexeme?_opener, hlexemes]
  rfl

theorem getLast?_loopOf (v body : Text) : (loopOf v body).getLast? = some ↑ '\x7d' := by
  rw [loopOf, List.getLast?_append]
  rfl

end Source

namespace Render

variable {partials : Partials} {s : Scope} {body a b c : Text} {xs ys : List Datum} {t : Template}

/-- A loop over the joined list and the two loops one after the other parse, and they do the same apart
from places. -/
theorem exists_parse_loops (settings : Settings) (file file' : Option Text) {fileB : Option Text}
    (hbody : Template.parse fileB body = .ok t) (hlast : body.getLast? ≠ some ↑ '\x7b')
    (hplaceless : Node.Placeless partials t.nodes)
    (ha : a.ClosesTag) (hb : b.ClosesTag) (hc : c.ClosesTag)
    (hxs : (s.resolve a).items? = some xs) (hys : (s.resolve b).items? = some ys)
    (hzs : (s.resolve c).items? = some (xs ++ ys)) :
    ∃ u u', Template.parse file (loopOf c body) = .ok u ∧
      Template.parse file' (loopOf a body ++ loopOf b body) = .ok u' ∧
      Trace.AlikeApart (run settings partials u.nodes s) (run settings partials u'.nodes s) := by
  obtain ⟨ta, hta, hla⟩ := Template.exists_parse_loopOf none ha hbody hlast
  obtain ⟨tb, htb, hlb⟩ := Template.exists_parse_loopOf none hb hbody hlast
  obtain ⟨u, hu, hlc⟩ := Template.exists_parse_loopOf file hc hbody hlast
  have hseam : ¬ ((loopOf a body).getLast? = some ↑ '\x7b' ∧ (loopOf b body).head? = some ↑ '\x7b') := by
    rw [getLast?_loopOf]
    simp
  obtain ⟨u', hu', hboth⟩ := exists_parse_append settings partials file' settings.room s hta htb hseam
  refine ⟨u, u', hu, hu', ?_⟩
  have hwhole : Trace.AlikeApart (run settings partials u.nodes s)
      (run settings partials [.each .unknown c t.nodes] s) := nodes_of_lexemes hlc settings.room s
  have hparts : Trace.AlikeApart
      (run settings partials ta.nodes s ++ run settings partials tb.nodes s)
      (run settings partials [.each .unknown a t.nodes] s ++
        run settings partials [.each .unknown b t.nodes] s) :=
    Trace.compatible_alike.append (nodes_of_lexemes hla settings.room s)
      (nodes_of_lexemes hlb settings.room s)
  rw [run_each_append settings .unknown hplaceless hxs hys hzs] at hwhole
  exact hwhole.trans (hparts.symm.trans hboth.symm)

/-- Looping distributes over the concatenation of lists. Around a body that parses, and in which no
path that can be reached asks for the place of a pass, a loop over a list succeeds exactly if two loops
do, one after the other, over two lists that make it up; and then it writes what they write and gives
their warnings, which only stand elsewhere. -/
theorem result_loop_append (settings : Settings) (partials : Partials) (context : Datum)
    (file file' fileB : Option Text) (body a b c : Text) (t : Template) (xs ys : List Datum)
    (hbody : Template.parse fileB body = .ok t) (hlast : body.getLast? ≠ some ↑ '\x7b')
    (hplaceless : Node.Placeless partials t.nodes)
    (ha : a.ClosesTag) (hb : b.ClosesTag) (hc : c.ClosesTag)
    (hxs : ((Scope.ofDatum context).resolve a).items? = some xs)
    (hys : ((Scope.ofDatum context).resolve b).items? = some ys)
    (hzs : ((Scope.ofDatum context).resolve c).items? = some (xs ++ ys)) :
    ((∃ r, (renderSource settings partials file (loopOf c body) context).result = .ok r) ↔
      ∃ r, (renderSource settings partials file' (loopOf a body ++ loopOf b body)
        context).result = .ok r) ∧
    ∀ r r', (renderSource settings partials file (loopOf c body) context).result = .ok r →
      (renderSource settings partials file' (loopOf a body ++ loopOf b body)
        context).result = .ok r' →
      r.output = r'.output ∧ r.warnings.map Warning.notice = r'.warnings.map Warning.notice := by
  obtain ⟨u, u', hu, hu', halike⟩ := exists_parse_loops settings file file' hbody hlast hplaceless
    ha hb hc hxs hys hzs
  simp only [renderSource, hu, hu', Template.render]
  refine ⟨?_, ?_⟩
  · rw [Outcome.exists_result_iff, Outcome.exists_result_iff, halike.failure_eq_none_iff]
  · intro r r' hr hr'
    obtain ⟨-, rfl⟩ := Outcome.result_eq_ok_iff.1 hr
    obtain ⟨-, rfl⟩ := Outcome.result_eq_ok_iff.1 hr'
    exact ⟨halike.output, halike.warnings⟩

/-- A body with a loop of its own, and with a name that stands for a field of some elements only. -/
def nestedBody : Text :=
  tagOf "n" ++ tagOf "#each w" ++ tagOf "_value" ++ tagOf "n" ++ tagOf "/each" ++ tagOf "> p"

/-- A partial that includes itself where `more` is true, and one that is not registered. -/
def stubbornPartial : Partials :=
  ⟨[("p", tagOf "#if more" ++ tagOf "> p" ++ tagOf "/if" ++ tagOf "> q" ++ ";")]⟩

/-- Two lists, and one that they make up. -/
def joinedLists : Datum :=
  let x : Datum := .mapping ⟨[("w", .list [.int 1, .int 2])]⟩
  let y : Datum := .mapping ⟨[("w", .tuple [.int 3]), ("n", .int 8)]⟩
  .mapping ⟨[("n", .int 7), ("x", .list [x]), ("y", .list [y, .null]), ("z", .list [x, y, .null])]⟩

/-- What can be reached from that body. -/
def nestedLexemes : List Lexeme :=
  [.leaf (.value "n"), .eachOpen "w", .leaf (.value "_value"), .eachClose, .leaf (.inclusion "p"),
    .ifOpen "more", .ifClose, .leaf (.inclusion "q"), .leaf (.text ";")]

theorem placeless_nestedBody (h : Template.parse none nestedBody = .ok t) :
    Node.Placeless stubbornPartial t.nodes := by
  have hlexemes : Node.lexemes t.nodes = ([.leaf (.value "n"), .eachOpen "w",
      .leaf (.value "_value"), .leaf (.value "n"), .eachClose, .leaf (.inclusion "p")] :
      List Lexeme) := Node.lexemes_of_parsed h (by decide +kernel)
  have hpaths : ∀ l ∈ nestedLexemes, ∀ path ∈ l.path?, ∀ key ∈ Loop.placeKeys,
      key ∉ path.splitOn '.' := by decide
  intro l hl
  exact hpaths l (hl.mem_of_closed (by rw [hlexemes]; decide) (by decide +kernel))

theorem result_loop_append_joinedLists :
    ∃ t r r', Template.parse none nestedBody = .ok t ∧ Node.Placeless stubbornPartial t.nodes ∧
      (renderSource .default stubbornPartial none (loopOf "z" nestedBody)
        joinedLists).result = .ok r ∧
      (renderSource .default stubbornPartial none (loopOf "x" nestedBody ++ loopOf "y" nestedBody)
        joinedLists).result = .ok r' ∧
      r'.output = "71727;838;7;" ∧ r.warnings.map Warning.notice = r'.warnings.map Warning.notice := by
  obtain ⟨t, ht⟩ := exists_ok_of_isOk
    (show (Template.parse none nestedBody).isOk by decide +kernel)
  have hplaceless := placeless_nestedBody ht
  have hpath : ∀ v : Text, v = "x" ∨ v = "y" ∨ v = "z" → v.ClosesTag := by
    rintro v (rfl | rfl | rfl) <;>
      exact ⟨by decide, ⟨by rintro c ⟨⟩; rfl, by rintro c ⟨⟩; rfl⟩, by decide⟩
  obtain ⟨r, hr⟩ : ∃ r, (renderSource .default stubbornPartial none (loopOf "z" nestedBody)
      joinedLists).result = .ok r := exists_ok_of_isOk (by decide +kernel)
  have hpage : (renderSource .default stubbornPartial none (loopOf "z" nestedBody)
      joinedLists).result.toOption.map Rendering.output = some ("71727;838;7;" : Text) := by
    decide +kernel
  rw [hr] at hpage
  obtain ⟨hiff, hsame⟩ := result_loop_append .default stubbornPartial joinedLists none none none
    nestedBody "x" "y" "z" t _ _ ht (by decide +kernel) hplaceless (hpath _ (.inl rfl))
    (hpath _ (.inr (.inl rfl))) (hpath _ (.inr (.inr rfl))) rfl rfl rfl
  obtain ⟨r', hr'⟩ := hiff.1 ⟨r, hr⟩
  obtain ⟨houtput, hwarnings⟩ := hsame r r' hr hr'
  exact ⟨t, r, r', ht, hplaceless, hr, hr', houtput.symm.trans (Option.some.inj hpage), hwarnings⟩

end Render
end Stencil
