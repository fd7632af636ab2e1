import EspressioCommand.Registry.Catalogue
import EspressioCommand.Registry.Completion
import EspressioCommand.Text.Composition

/-!
# Walking down the tree by completion

A user who types nothing but what `Complete` offers: at a blank line, and then behind each
finished name, some start of a word is typed, one of the names on offer is taken in its
place, in any spelling, and white space behind it.  `Walked` says which lines come of that.

`walked_of_run` says that they are the lines that spell the path of a shown command, and
that the offer behind each of them is exact, along every run in which no alias is given that
a sibling already answers to.
-/

namespace EspressioCommand

open Library TextCommandParser

variable {σ : Type}

/-! ### Shown commands -/

namespace CommandCatalogue

variable {catalogue : CommandCatalogue σ} {registry : CommandRegistry σ}

/-- The command is entered under the names, and neither it nor a command on the way to it is
hidden. -/
def Shows (catalogue : CommandCatalogue σ) (names : CommandPath) (node : NodeData σ) : Prop :=
  (names, node) ∈ catalogue.entries ∧
    ∀ front last data, front ++ [last] <+: names → (front ++ [last], data) ∈ catalogue.entries →
      data.hidden = false

namespace Represents

/-- The names of a node lead to it. -/
theorem resolve_of_mem (h : catalogue.Represents registry) (hseparate : registry.Separate)
    {names : CommandPath} {data : NodeData σ} (hdata : (names, data) ∈ catalogue.entries) :
    ∃ node, RoseTree.Occurs NodeData.name names node registry.root ∧
      registry.resolve names = some node ∧ node.label = data := by
  rw [h.entries] at hdata
  obtain ⟨node, hnode, hlabel⟩ := hdata
  refine ⟨node, hnode, ?_, hlabel⟩
  apply RoseTree.walk_eq_of_clear selfAnswering_matchesValue _ hnode
  intro parent hparent
  refine (hseparate parent hparent).imp ?_
  -- siblings that share no token do not answer to each other's names
  intro child later hclear
  cases hanswers : child.label.matchesValue later.label.name with
  | false => rfl
  | true =>
      have hshared := shares_sharesToken child.label later.label _ hanswers
        (selfAnswering_matchesValue later.label)
      rw [id, hshared] at hclear
      cases hclear

theorem shows_nil (h : catalogue.Represents registry) : catalogue.Shows [] registry.root.label := by
  refine ⟨?_, ?_⟩
  · rw [h.entries]
    exact RoseTree.nil_mem_entries.mpr rfl
  · intro front last data hfront
    rw [List.prefix_nil] at hfront
    exact absurd hfront (by simp)

/-- A command is shown below a command that is. -/
theorem shows_concat_iff (h : catalogue.Represents registry) (hseparate : registry.Separate)
    {names : CommandPath} {last : CommandString} {data : NodeData σ} :
    catalogue.Shows (names ++ [last]) data ↔
      (∃ parent, catalogue.Shows names parent) ∧ (names ++ [last], data) ∈ catalogue.entries ∧
        data.hidden = false := by
  constructor
  · rintro ⟨hdata, hshown⟩
    obtain ⟨node, hnode, -, -⟩ := h.resolve_of_mem hseparate hdata
    obtain ⟨parent, hparent, -, -⟩ := hnode.exists_parent
    refine ⟨⟨parent.label, ?_, ?_⟩, hdata, hshown names last data (List.prefix_refl _) hdata⟩
    · rw [h.entries]
      exact ⟨parent, hparent, rfl⟩
    · intro front name other hfront
      exact hshown front name other (hfront.trans (List.prefix_append _ _))
  · rintro ⟨⟨parent, -, hshown⟩, hdata, hvisible⟩
    refine ⟨hdata, ?_⟩
    intro front name other hfront hother
    rcases List.prefix_concat_iff.mp hfront with heq | hbefore
    · rw [heq] at hother
      obtain ⟨_, _, hresolve, rfl⟩ := h.resolve_of_mem hseparate hdata
      obtain ⟨_, _, hresolve', rfl⟩ := h.resolve_of_mem hseparate hother
      rw [hresolve] at hresolve'
      cases hresolve'
      exact hvisible
    · exact hshown front name other hbefore hother

end Represents

end CommandCatalogue

/-! ### What is offered -/

namespace CommandRegistry

theorem mem_listing (registry : CommandRegistry σ) (path : CommandPath)
    (word candidate : CommandString) :
    candidate ∈ registry.listing path word ↔
      ∃ node, registry.resolve path = some node ∧ ∃ child ∈ node.children,
        child.label.hidden = false ∧ word <+: child.label.name ∧
          child.label.name = candidate := by
  rw [listing]
  cases registry.resolve path with
  | none => simp
  | some node => simp [and_assoc]

/-- Where siblings share no token, no name is offered twice. -/
theorem nodup_listing {registry : CommandRegistry σ} (hseparate : registry.Separate)
    {path : CommandPath} {node : CommandNode σ}
    (hnode : RoseTree.Occurs NodeData.name path node registry.root)
    (hresolve : registry.resolve path = some node) (word : CommandString) :
    (registry.listing path word).Nodup := by
  rw [listing, hresolve, Option.map_some, Option.getD_some, List.nodup_iff_pairwise_ne,
    List.pairwise_map]
  refine ((hseparate node hnode.subtree).sublist List.filter_sublist).imp ?_
  intro child later hclear hname
  have hshared := shares_sharesToken child.label later.label _
    (selfAnswering_matchesValue child.label) (hname ▸ selfAnswering_matchesValue later.label)
  rw [id, hshared] at hclear
  cases hclear

/-! ### Lines typed by completion -/

/-- The start of a word, as it is written.  White space at its end, though escaped, would
finish the word for `Complete`; and the start of the word before it would be taken for the
start of an empty one. -/
inductive Begins : CommandString → CommandString → Prop
  | nothing : Begins [] []
  | started {start word : CommandString} (hstart : Encodes 0 start word) (hword : word ≠ [])
      (hspace : start.getLast?.any isSpace = false) : Begins start word

/-- `Walked registry path line`: the names in `path` were taken from what was offered, one
after the other, and `line` is what stands in the buffer.  The empty name, which no line can
spell, is never taken. -/
inductive Walked (registry : CommandRegistry σ) : CommandPath → CommandString → Prop
  | blank {line : CommandString} (hline : Blank line) : Walked registry [] line
  | taken {path : CommandPath} {line start word candidate written gap : CommandString}
      (hline : Walked registry path line) (hbegins : Begins start word)
      (hoffered : candidate ∈ registry.complete (line ++ start)) (hcandidate : candidate ≠ [])
      (hwritten : Encodes 0 written candidate) (hgap : Blank gap) (hsep : gap ≠ []) :
      Walked registry (path ++ [candidate]) (line ++ written ++ gap)

namespace Walked

variable {registry : CommandRegistry σ} {path : CommandPath} {line : CommandString}

/-- The scanner has finished the names, and nothing stands behind the last one but white
space. -/
theorem scan (h : registry.Walked path line) :
    Scanner.initial.scan line = ⟨path, [], 0, false⟩ ∧
      (path = [] ∨ line.getLast?.any isSpace = true) := by
  induction h with
  | blank hline => exact ⟨scan_blank hline [], Or.inl rfl⟩
  | @taken path line start word candidate written gap _ _ _ hcandidate hwritten hgap hsep ih =>
      obtain ⟨hscan, -⟩ := ih
      constructor
      · rw [Scanner.scan_append, Scanner.scan_append, hscan, scan_encodes hwritten,
          scan_blank_of_ne_nil hgap hsep]
        simp [hcandidate]
      · right
        obtain ⟨front, c, rfl⟩ : ∃ front c, gap = front ++ [c] :=
          ⟨gap.dropLast, gap.getLast hsep, (List.dropLast_append_getLast hsep).symm⟩
        have hc : isSpace c = true := hgap c (by simp)
        rw [← List.append_assoc]
        simpa using hc

theorem tokenize_eq (h : registry.Walked path line) : tokenize line = ⟨path, []⟩ := by
  rw [tokenize, h.scan.1]
  rfl

/-- **The offer behind a line** is what is listed below its names. -/
theorem complete_eq (h : registry.Walked path line) {start word : CommandString}
    (hbegins : Begins start word) :
    registry.complete (line ++ start) = registry.listing path word := by
  obtain ⟨hscan, hlast⟩ := h.scan
  cases hbegins with
  | nothing =>
      have htokens := h.tokenize_eq
      rw [List.append_nil, complete_of_finished registry (by rw [htokens]) (by rwa [htokens]),
        htokens]
  | started hstart hword hspace =>
      have htokens : tokenize (line ++ start) = ⟨path ++ [word], []⟩ := by
        rw [tokenize, Scanner.scan_append, hscan, scan_encodes hstart, List.nil_append]
        simp [Scanner.finish, hword]
      have hstarted : start ≠ [] := by
        rintro rfl
        cases hstart
        exact hword rfl
      have hend : (line ++ start).getLast?.any isSpace = false := by
        rwa [List.getLast?_append_of_ne_nil _ hstarted]
      rw [complete_of_unfinished registry (by rw [htokens]) (by simp [htokens]) hend, htokens]
      simp

end Walked

end CommandRegistry

/-! ### Lines and commands -/

namespace CommandCatalogue.Represents

variable {catalogue : CommandCatalogue σ} {registry : CommandRegistry σ}

/-- **One offer.**  Below a shown command the names of the shown commands are listed. -/
theorem mem_listing_iff (h : catalogue.Represents registry) (hseparate : registry.Separate)
    {path : CommandPath} {data : NodeData σ} (hshown : catalogue.Shows path data)
    (word candidate : CommandString) :
    candidate ∈ registry.listing path word ↔
      word <+: candidate ∧ ∃ below, catalogue.Shows (path ++ [candidate]) below := by
  obtain ⟨node, hnode, hresolve, rfl⟩ := h.resolve_of_mem hseparate hshown.1
  rw [CommandRegistry.mem_listing, hresolve]
  have hbelow (below : NodeData σ) : (path ++ [candidate], below) ∈ catalogue.entries ↔
      ∃ child ∈ node.children, child.label.name = candidate ∧ child.label = below := by
    rw [h.entries, RoseTree.append_mem_entries selfAnswering_matchesValue shares_sharesToken
      hseparate hnode, RoseTree.singleton_mem_entries]
  constructor
  · rintro ⟨_, ⟨⟩, child, hchild, hvisible, hword, rfl⟩
    refine ⟨hword, child.label, (h.shows_concat_iff hseparate).mpr ⟨⟨_, hshown⟩, ?_, hvisible⟩⟩
    exact (hbelow _).mpr ⟨child, hchild, rfl, rfl⟩
  · rintro ⟨hword, below, hshows⟩
    obtain ⟨-, hentry, hvisible⟩ := (h.shows_concat_iff hseparate).mp hshows
    obtain ⟨child, hchild, rfl, rfl⟩ := (hbelow _).mp hentry
    exact ⟨node, rfl, child, hchild, hvisible, hword, rfl⟩

/-- A line typed by completion spells the names of a shown command. -/
theorem shows_of_walked (h : catalogue.Represents registry) (hseparate : registry.Separate)
    {path : CommandPath} {line : CommandString} (hline : registry.Walked path line) :
    ∃ data, catalogue.Shows path data := by
  induction hline with
  | blank => exact ⟨_, h.shows_nil⟩
  | taken hwalked hbegins hoffered _ _ _ _ ih =>
      obtain ⟨data, hshown⟩ := ih
      rw [hwalked.complete_eq hbegins] at hoffered
      exact ((h.mem_listing_iff hseparate hshown _ _).mp hoffered).2

/-- The names of a shown command can be typed by completion. -/
theorem exists_walked (h : catalogue.Represents registry) (hseparate : registry.Separate)
    {path : CommandPath} {data : NodeData σ} (hshown : catalogue.Shows path data)
    (hnames : [] ∉ path) : ∃ line, registry.Walked path line := by
  induction path using List.reverseRecOn generalizing data with
  | nil => exact ⟨[], .blank (by simp [Blank])⟩
  | append_singleton path name ih =>
      obtain ⟨⟨parent, hparent⟩, -⟩ := (h.shows_concat_iff hseparate).mp hshown
      obtain ⟨line, hline⟩ := ih hparent fun hmem => hnames (List.mem_append_left _ hmem)
      have hoffered : name ∈ registry.complete (line ++ []) := by
        rw [hline.complete_eq .nothing]
        exact (h.mem_listing_iff hseparate hparent [] name).mpr ⟨List.nil_prefix, data, hshown⟩
      have hname : name ≠ [] := by
        rintro rfl
        exact hnames (by simp)
      exact ⟨_, .taken hline .nothing hoffered hname (encodes_quote .double name)
        (show Blank [space] by decide) (by decide)⟩

end CommandCatalogue.Represents

namespace RegistrySystem

/-- **Completion finds exactly what is shown.**  Along a run in which no alias is given that a
sibling answers to, each line that is typed by completion alone spells the path of a shown
command; behind it each name is offered once, and these are the names, with the start
that is typed, of the shown commands below; and every shown command whose path names are not
empty is reached. -/
theorem walked_of_run
    {trace : List (Transition (RegistrySystem σ) (RegistryAction σ))}
    {final : RegistrySystem σ} (hrun : Run Step {} trace final)
    (hfresh : ∀ τ ∈ trace, τ.before.AliasIsFresh τ.label) :
    let catalogue := (registryCalls trace).foldl CommandCatalogue.perform .initial
    (∀ path line, final.registry.Walked path line →
      tokenize line = ⟨path, []⟩ ∧
      (∃ node, final.registry.resolve path = some node ∧ catalogue.Shows path node.label) ∧
      ∀ start word, CommandRegistry.Begins start word →
        (final.registry.complete (line ++ start)).Nodup ∧
        ∀ candidate, candidate ∈ final.registry.complete (line ++ start) ↔
          word <+: candidate ∧ ∃ below, catalogue.Shows (path ++ [candidate]) below) ∧
    ∀ path data, catalogue.Shows path data → [] ∉ path →
      ∃ line, final.registry.Walked path line := by
  intro catalogue
  obtain ⟨hrepresents, hseparate⟩ := represents_of_run hrun hfresh
  refine ⟨?_, fun path data hshown hnames => hrepresents.exists_walked hseparate hshown hnames⟩
  intro path line hline
  obtain ⟨data, hshown⟩ := hrepresents.shows_of_walked hseparate hline
  obtain ⟨node, hnode, hresolve, rfl⟩ := hrepresents.resolve_of_mem hseparate hshown.1
  refine ⟨hline.tokenize_eq, ⟨node, hresolve, hshown⟩, ?_⟩
  intro start word hbegins
  rw [hline.complete_eq hbegins]
  exact ⟨CommandRegistry.nodup_listing hseparate hnode hresolve word,
    hrepresents.mem_listing_iff hseparate hshown word⟩

/-- Behind `relay` and the start `o` of a word, the session with the alias `r` still offers
`off`, which is shown. -/
theorem walked_of_aliasSession :
    let catalogue :=
      (registryCalls (schedule perform {} aliasSession)).foldl CommandCatalogue.perform .initial
    ∃ data, catalogue.Shows [text "relay", text "off"] data := by
  have hrun := @Run.of_schedule _ _ Enabled perform ({} : RegistrySystem Unit) aliasSession
    (by decide)
  have hline : (aliasSession.foldl perform {}).registry.Walked [text "relay"] (text "relay ") :=
    .taken (.blank (show Blank [] by decide)) .nothing (by decide) (by decide)
      (Encodes.of_ordinary (show (text "relay").all isOrdinary = true by decide))
      (show Blank [space] by decide) (by decide)
  obtain ⟨-, -, hoffers⟩ := (walked_of_run hrun (by decide)).1 _ _ hline
  have hstart : CommandRegistry.Begins (text "o") (text "o") :=
    .started (Encodes.of_ordinary (by decide)) (by decide) (by decide)
  exact (((hoffers _ _ hstart).2 (text "off")).mp (by decide)).2

end RegistrySystem

end EspressioCommand
