import Mathlib
import SchemaPlugin.CommandLine.Execution
import SchemaPlugin.Proofs.Console.Lines
import SchemaPlugin.Proofs.Descriptor.NormalForm
import SchemaPlugin.Proofs.Descriptor.Places
import SchemaPlugin.Proofs.Inspect.Captions
import SchemaPlugin.Proofs.Text.WellFormed

/-!
Requests that are shown as trees. The nodes of a file have captions, and what is printed is drawn
from what the markup of the captions shows. It ends early if a caption cannot be shown.
-/

namespace SchemaPlugin

namespace Console

theorem Guides.encodable_child {guides : Guides} (encodable : guides.below.Encodable)
    (isLast : Bool) :
    (guides.child isLast).first.Encodable ∧ (guides.child isLast).below.Encodable := by
  cases isLast <;> simp [Guides.child, encodable]

theorem encodable_labelLines {guides : Guides} {label : Text} (first : guides.first.Encodable)
    (below : guides.below.Encodable) (encodable : label.Encodable) :
    ∀ line ∈ labelLines guides label, line.Encodable := by
  have each : ∀ line ∈ wrap (width - guides.below.length) label, line.Encodable :=
    encodable_of_mem_wrap encodable
  rw [labelLines]
  split_ifs
  · exact List.forall_mem_nil _
  · split
    · exact List.forall_mem_nil _
    · rename_i eq
      rw [eq] at each
      obtain ⟨line, rest⟩ := List.forall_mem_cons.1 each
      exact List.forall_mem_cons.2 ⟨Text.encodable_append.2 ⟨first, line⟩,
        List.forall_mem_map.2 fun line mem => Text.encodable_append.2 ⟨below, rest line mem⟩⟩

namespace Tree

mutual

/-- The lines of a tree whose labels have no markup. -/
def drawnAt (guides : Guides) : Tree → List Text
  | ⟨label, children⟩ => labelLines guides label ++ drawnBelow guides children

def drawnBelow (guides : Guides) : List Tree → List Text
  | [] => []
  | tree :: rest => drawnAt (guides.child rest.isEmpty) tree ++ drawnBelow guides rest

end

end Tree

end Console

namespace Inspect

open Console (Guides Tree)
open Descriptor
open Markup (MarkupError plain)

/-- A node with its caption and what is below it. -/
structure Node where
  caption : Caption
  children : List Node

namespace Node

mutual

/-- The tree of a node, with labels made of the captions. -/
def tree (say : Caption → Text) : Node → Tree
  | ⟨caption, children⟩ => ⟨say caption, trees say children⟩

def trees (say : Caption → Text) : List Node → List Tree
  | [] => []
  | node :: rest => tree say node :: trees say rest

end

mutual

/-- The captions of a node and of what is below it. -/
def captions : Node → List Caption
  | ⟨caption, children⟩ => caption :: captionsOf children

def captionsOf : List Node → List Caption
  | [] => []
  | node :: rest => captions node ++ captionsOf rest

end

/-- What holds of nodes if it holds of what is below the first one and of the others. -/
theorem induct {motive : List Node → Prop} (nil : motive [])
    (cons : ∀ node rest, motive node.children → motive rest → motive (node :: rest))
    (nodes : List Node) : motive nodes :=
  Node.rec_1 (motive_1 := fun node => motive node.children) (motive_2 := motive)
    (fun _ _ below => below) nil cons nodes

section Lines

variable {say : Caption → Text} {guides : Guides} {node : Node} {nodes : List Node}

theorem trees_eq (say : Caption → Text) (nodes : List Node) :
    trees say nodes = nodes.map (tree say) := by
  induction nodes with
  | nil => rfl
  | cons node rest ih => rw [trees, ih, List.map_cons]

theorem isEmpty_trees (say : Caption → Text) (nodes : List Node) :
    (trees say nodes).isEmpty = nodes.isEmpty := by
  rw [trees_eq, List.isEmpty_map]

theorem forall_mem_captions {P : Caption → Prop} :
    (∀ c ∈ node.captions, P c) ↔ P node.caption ∧ ∀ c ∈ captionsOf node.children, P c := by
  cases node
  exact List.forall_mem_cons

theorem forall_mem_captionsOf {P : Caption → Prop} :
    (∀ c ∈ captionsOf nodes, P c) ↔ ∀ node ∈ nodes, ∀ c ∈ node.captions, P c := by
  induction nodes with
  | nil => simp [captionsOf]
  | cons node rest ih => rw [captionsOf, List.forall_mem_append, List.forall_mem_cons, ih]

/-! Of each property, first what a node adds to what is below it, and then all nodes. -/

theorem linesAt_of_childLines (own : plain node.caption.markup = .ok (say node.caption))
    (below : Tree.childLines guides (trees Caption.markup node.children) =
      .ok (Tree.drawnBelow guides (trees say node.children))) :
    (node.tree Caption.markup).linesAt guides = .ok ((node.tree say).drawnAt guides) := by
  obtain ⟨caption, children⟩ := node
  rw [tree, tree, Tree.linesAt, Tree.drawnAt, own, below]
  rfl

/-- If every caption shows, what is below a node is drawn from what they show. -/
theorem childLines_trees (shows : ∀ c ∈ captionsOf nodes, plain c.markup = .ok (say c)) :
    Tree.childLines guides (trees Caption.markup nodes) =
      .ok (Tree.drawnBelow guides (trees say nodes)) := by
  induction nodes using induct generalizing guides with
  | nil => rfl
  | cons node rest below others =>
    obtain ⟨first, later⟩ := List.forall_mem_append.1 shows
    obtain ⟨own, inside⟩ := forall_mem_captions.1 first
    rw [trees, trees, Tree.childLines, Tree.drawnBelow, isEmpty_trees, isEmpty_trees,
      linesAt_of_childLines own (below inside), others later]
    rfl

theorem linesAt_tree (shows : ∀ c ∈ node.captions, plain c.markup = .ok (say c)) :
    (node.tree Caption.markup).linesAt guides = .ok ((node.tree say).drawnAt guides) :=
  have ⟨own, inside⟩ := forall_mem_captions.1 shows
  linesAt_of_childLines own (childLines_trees inside)

theorem exists_childLines_of_linesAt {lines : List Text}
    (drawn : (node.tree Caption.markup).linesAt guides = .ok lines) :
    (∃ s, plain node.caption.markup = .ok s) ∧
      ∃ inside, Tree.childLines guides (trees Caption.markup node.children) = .ok inside := by
  obtain ⟨caption, children⟩ := node
  obtain ⟨label, shows, drawn⟩ := bind_eq_ok_iff.1 drawn
  obtain ⟨inside, below, -⟩ := bind_eq_ok_iff.1 drawn
  exact ⟨⟨label, shows⟩, inside, below⟩

/-- Nothing is drawn below a node if a caption cannot be shown. -/
theorem exists_plain_of_childLines {lines : List Text}
    (drawn : Tree.childLines guides (trees Caption.markup nodes) = .ok lines) :
    ∀ c ∈ captionsOf nodes, ∃ s, plain c.markup = .ok s := by
  induction nodes using induct generalizing guides lines with
  | nil => exact List.forall_mem_nil _
  | cons node rest below others =>
    obtain ⟨first, drawnFirst, drawn⟩ := bind_eq_ok_iff.1 drawn
    obtain ⟨later, drawnLater, -⟩ := bind_eq_ok_iff.1 drawn
    obtain ⟨own, inside, drawnInside⟩ := exists_childLines_of_linesAt drawnFirst
    exact List.forall_mem_append.2
      ⟨forall_mem_captions.2 ⟨own, below drawnInside⟩, others drawnLater⟩

theorem exists_plain_of_linesAt {lines : List Text}
    (drawn : (node.tree Caption.markup).linesAt guides = .ok lines) :
    ∀ c ∈ node.captions, ∃ s, plain c.markup = .ok s :=
  have ⟨own, _, inside⟩ := exists_childLines_of_linesAt drawn
  forall_mem_captions.2 ⟨own, exists_plain_of_childLines inside⟩

theorem encodable_drawnAt_of_drawnBelow (first : guides.first.Encodable)
    (below : guides.below.Encodable) (own : (say node.caption).Encodable)
    (inside : ∀ line ∈ Tree.drawnBelow guides (trees say node.children), line.Encodable) :
    ∀ line ∈ (node.tree say).drawnAt guides, line.Encodable := by
  obtain ⟨caption, children⟩ := node
  exact List.forall_mem_append.2 ⟨Console.encodable_labelLines first below own, inside⟩

theorem encodable_of_mem_drawnBelow (below : guides.below.Encodable)
    (encodable : ∀ c ∈ captionsOf nodes, (say c).Encodable) :
    ∀ line ∈ Tree.drawnBelow guides (trees say nodes), line.Encodable := by
  induction nodes using induct generalizing guides with
  | nil => exact List.forall_mem_nil _
  | cons node rest inside others =>
    obtain ⟨first, later⟩ := List.forall_mem_append.1 encodable
    obtain ⟨own, inner⟩ := forall_mem_captions.1 first
    have guided := Guides.encodable_child below (trees say rest).isEmpty
    exact List.forall_mem_append.2
      ⟨encodable_drawnAt_of_drawnBelow guided.1 guided.2 own (inside guided.2 inner),
        others below later⟩

theorem encodable_of_mem_drawnAt (encodable : ∀ c ∈ node.captions, (say c).Encodable) :
    ∀ line ∈ (node.tree say).drawnAt .root, line.Encodable :=
  have ⟨own, inside⟩ := forall_mem_captions.1 encodable
  encodable_drawnAt_of_drawnBelow Text.encodable_nil Text.encodable_nil own
    (encodable_of_mem_drawnBelow Text.encodable_nil inside)

end Lines

end Node

/-! ## The nodes of a file -/

def valueNode (v : EnumValue) : Node := ⟨.value (v.name.getD []) (v.number.getD (.int 0)), []⟩

def enumNode (e : Enum) : Node := ⟨.enum (e.name.getD []), (present e.values).map valueNode⟩

def fieldNode (f : Field) : Node :=
  ⟨.field (f.number.getD (.int 0)) (f.name.getD []) (f.label.getD .optional) f.kind, []⟩

mutual

def messageNode : Message → Node
  | ⟨name, fields, nestedMessages, nestedEnums, _⟩ =>
    ⟨.message (name.getD []),
      (present fields).map fieldNode ++ (present nestedEnums).map enumNode ++
        match nestedMessages with
        | none => []
        | some messages => messageNodes messages⟩

def messageNodes : List (Option Message) → List Node
  | [] => []
  | none :: rest => messageNodes rest
  | some m :: rest => messageNode m :: messageNodes rest

end

def fileNode (name : Text) (f : File) : Node :=
  ⟨.file name (f.package.getD []),
    (f.dependencies.getD []).map (fun dependency => ⟨.dependency dependency, []⟩) ++
      (f.options.getD ∅).entries.map (fun entry => ⟨.option entry.1 entry.2, []⟩) ++
      (present f.enums).map enumNode ++ messageNodes (f.messages.getD [])⟩

section Typed

theorem valueTree_eq {v : EnumValue} (typed : v.WellTyped) :
    valueTree (some v) = .ok ((valueNode v).tree Caption.markup) := by
  cases typed
  rfl

theorem enumTree_eq {e : Enum} (typed : e.WellTyped) :
    enumTree (some e) = .ok ((enumNode e).tree Caption.markup) := by
  cases typed with
  | @mk name values _ typed =>
    have below : (values.map some).mapM valueTree =
        .ok (values.map fun v => (valueNode v).tree Caption.markup) :=
      mapM_map_some_eq_ok fun v mem => valueTree_eq (typed v mem)
    simp only [enumTree, escaped, parts, ok_bind, below, enumNode, present_map_some, Node.tree,
      Node.trees_eq, List.map_map]
    rfl

theorem fieldTree_eq {f : Field} (typed : f.WellTyped) :
    fieldTree (some f) = .ok ((fieldNode f).tree Caption.markup) := by
  cases typed
  rfl

theorem messageTrees_map_some {messages : List Message}
    (each : ∀ m ∈ messages, messageTree m = .ok ((messageNode m).tree Caption.markup)) :
    messageTrees (messages.map some) =
      .ok (Node.trees Caption.markup (messageNodes (messages.map some))) := by
  induction messages with
  | nil => rfl
  | cons m rest ih =>
    obtain ⟨first, others⟩ := List.forall_mem_cons.1 each
    rw [List.map_cons, messageTrees, first, ih others]
    rfl

theorem messageTree_eq {m : Message} (typed : m.WellTyped) :
    messageTree m = .ok ((messageNode m).tree Caption.markup) := by
  induction typed with
  | @mk name fields messages enums options _ fieldsTyped _ enumsTyped ih =>
    have fieldTrees : (fields.map some).mapM fieldTree =
        .ok (fields.map fun f => (fieldNode f).tree Caption.markup) :=
      mapM_map_some_eq_ok fun f mem => fieldTree_eq (fieldsTyped f mem)
    have enumTrees : (enums.map some).mapM enumTree =
        .ok (enums.map fun e => (enumNode e).tree Caption.markup) :=
      mapM_map_some_eq_ok fun e mem => enumTree_eq (enumsTyped e mem)
    simp only [messageTree, escaped, parts, ok_bind, fieldTrees, enumTrees,
      messageTrees_map_some ih, messageNode, present_map_some, Node.tree, Node.trees_eq,
      List.map_append, List.map_map]
    rfl

theorem fileTree_eq {f : File} (name : Text) (typed : f.WellTyped) :
    fileTree name f = .ok ((fileNode name f).tree Caption.markup) := by
  cases typed with
  | @mk _ package dependencies messages enums options _ _ _ messagesTyped enumsTyped =>
    have enumTrees : (enums.map some).mapM enumTree =
        .ok (enums.map fun e => (enumNode e).tree Caption.markup) :=
      mapM_map_some_eq_ok fun e mem => enumTree_eq (enumsTyped e mem)
    have messageTrees_ := messageTrees_map_some fun m mem => messageTree_eq (messagesTyped m mem)
    simp only [fileTree, parts, ok_bind, enumTrees, messageTrees_, fileNode, present_map_some,
      Option.getD_some, Node.tree, Node.trees_eq, List.map_append, List.map_map]
    rfl

end Typed

/-! ## What is shown of a request -/

def headings (r : Request) : List Caption :=
  [.request, .targets (r.filesToGenerate.getD []), .parameter (r.parameter.getD [])]

def nodes (r : Request) : List Node :=
  r.protoFiles.entries.map fun entry => fileNode entry.1 entry.2

def captions (r : Request) : List Caption := headings r ++ Node.captionsOf (nodes r)

/-- What is printed of a request if `say` is what its captions show. -/
def drawing (say : Caption → Text) (r : Request) : Text :=
  (headings r).flatMap (fun c => Console.printed (Console.wrap Console.width (say c))) ++ "\n" ++
    (nodes r).flatMap fun node => Console.printed ((node.tree say).drawnAt .root)

/-- A request without nulls, and without surrogates in what its captions are to say. -/
structure Printable (r : Request) : Prop where
  wellTyped : r.WellTyped
  encodable : ∀ c ∈ captions r, c.text.Encodable

section Pieces

variable {ε α : Type} {f : α → Except ε Text} {g : α → Text} {as : List α}

theorem untilError_map_append (each : ∀ a ∈ as, f a = .ok (g a)) (rest : List (Except ε Text)) :
    untilError (as.map f ++ rest) = (as.flatMap g ++ (untilError rest).1, (untilError rest).2) := by
  induction as with
  | nil => rfl
  | cons a as ih =>
    obtain ⟨first, others⟩ := List.forall_mem_cons.1 each
    rw [List.map_cons, List.cons_append, first, untilError, ih others, List.flatMap_cons,
      List.append_assoc]

theorem untilError_map (each : ∀ a ∈ as, f a = .ok (g a)) :
    untilError (as.map f) = (as.flatMap g, none) := by
  have last := untilError_map_append each []
  rwa [List.append_nil, untilError, List.append_nil] at last

theorem error_mem_of_untilError {pieces : List (Except ε Text)} {e : ε}
    (stopped : (untilError pieces).2 = some e) : .error e ∈ pieces := by
  induction pieces with
  | nil => cases stopped
  | cons piece rest ih =>
    cases piece with
    | ok t => exact List.mem_cons_of_mem _ (ih stopped)
    | error e' =>
      cases stopped
      exact List.mem_cons_self

theorem forall_ok_of_untilError {pieces : List (Except ε Text)}
    (whole : (untilError pieces).2 = none) : ∀ piece ∈ pieces, ∃ t, piece = .ok t := by
  induction pieces with
  | nil => exact List.forall_mem_nil _
  | cons piece rest ih =>
    cases piece with
    | ok t => exact List.forall_mem_cons.2 ⟨⟨t, rfl⟩, ih whole⟩
    | error e => cases whole

end Pieces

section Request

variable {r : Request} {say : Caption → Text}

/-- The pieces of what is shown, with the markup of captions in place of what they come from. -/
theorem pieces_eq (typed : r.WellTyped) :
    pieces r = (headings r).map (fun c => print c.markup) ++ (.ok (Text.ofString "\n") ::
      (nodes r).map fun node => (node.tree Caption.markup).print.mapError .markup) := by
  cases typed with
  | @mk names parameter files _ _ filesTyped =>
    have printed : files.entries.map printFile =
        (files.entries.map fun entry => fileNode entry.1 entry.2).map fun node =>
          (node.tree Caption.markup).print.mapError .markup := by
      rw [List.map_map]
      refine List.map_congr_left fun entry mem => ?_
      rw [printFile, fileTree_eq entry.1 (filesTyped entry.2 (List.mem_map_of_mem mem))]
      rfl
    rw [pieces, printed]
    rfl

/-- A request whose captions all show is shown whole. -/
theorem inspect_eq (typed : r.WellTyped)
    (shows : ∀ c ∈ captions r, plain c.markup = .ok (say c)) :
    r.inspect = (drawing say r, none) := by
  obtain ⟨headed, below⟩ := List.forall_mem_append.1 shows
  have first : ∀ c ∈ headings r,
      print c.markup = .ok (Console.printed (Console.wrap Console.width (say c))) := by
    intro c mem
    rw [print, Console.print, headed c mem]
    rfl
  have drawn : ∀ node ∈ nodes r, (node.tree Caption.markup).print.mapError InspectError.markup =
      .ok (Console.printed ((node.tree say).drawnAt .root)) := by
    intro node mem
    rw [Tree.print, Node.linesAt_tree (Node.forall_mem_captionsOf.1 below node mem)]
    rfl
  rw [Request.inspect, pieces_eq typed, untilError_map_append first, untilError,
    untilError_map drawn, drawing, List.append_assoc]

/-- A request that is shown whole has no caption that cannot be shown. -/
theorem exists_plain_of_inspect (typed : r.WellTyped) (whole : r.inspect.2 = none) :
    ∀ c ∈ captions r, ∃ s, plain c.markup = .ok s := by
  have each := forall_ok_of_untilError whole
  rw [pieces_eq typed, List.forall_mem_append, List.forall_mem_cons, List.forall_mem_map,
    List.forall_mem_map] at each
  obtain ⟨headed, -, drawn⟩ := each
  refine List.forall_mem_append.2 ⟨fun c mem => ?_, Node.forall_mem_captionsOf.2 fun node mem => ?_⟩
  · obtain ⟨t, printed⟩ := headed c mem
    obtain ⟨s, shows, -⟩ := bind_eq_ok_iff.1 (mapError_eq_ok_iff.1 printed)
    exact ⟨s, shows⟩
  · obtain ⟨t, printed⟩ := drawn node mem
    obtain ⟨lines, drawn, -⟩ := bind_eq_ok_iff.1 (mapError_eq_ok_iff.1 printed)
    exact Node.exists_plain_of_linesAt drawn

/-- The only errors are those of markup. -/
theorem exists_markup_error {e : InspectError} (typed : r.WellTyped)
    (stopped : r.inspect.2 = some e) : ∃ e', e = .markup e' := by
  have mem := error_mem_of_untilError stopped
  rw [pieces_eq typed] at mem
  simp only [List.mem_append, List.mem_map, List.mem_cons, reduceCtorEq, false_or] at mem
  rcases mem with ⟨c, -, printed⟩ | ⟨node, -, printed⟩ <;>
    obtain ⟨e', -, rfl⟩ := mapError_eq_error_iff.1 printed <;> exact ⟨e', rfl⟩

theorem encodable_drawing (encodable : ∀ c ∈ captions r, (say c).Encodable) :
    (drawing say r).Encodable := by
  obtain ⟨headed, below⟩ := List.forall_mem_append.1 encodable
  refine Text.encodable_append.2 ⟨Text.encodable_append.2 ⟨Text.encodable_flatMap fun c mem => ?_,
    Text.encodable_ofString _⟩, Text.encodable_flatMap fun node mem => ?_⟩
  · exact Console.encodable_printed (Console.encodable_of_mem_wrap (headed c mem))
  · exact Console.encodable_printed
      (Node.encodable_of_mem_drawnAt (Node.forall_mem_captionsOf.1 below node mem))

/-- What a request that is shown as trees says. The trees of its files have the nodes and captions
that are meant. A caption shows as it is to say if it has no control characters that never show and
its names show as they are; what it shows may else be something different, and for an option whose
name has a bracket that its value closes after a slash there may be no such thing. Everything is
drawn from what the captions show, and the command ends with status 0, unless one cannot be shown:
then it fails with that error. -/
theorem inspect_shows_captions (printable : Printable r) (files : CommandLine.Files) :
    (∀ entry ∈ r.protoFiles.entries,
        fileTree entry.1 entry.2 = .ok ((fileNode entry.1 entry.2).tree Caption.markup)) ∧
      (∀ c ∈ captions r, (plain c.markup = .ok c.text ↔ c.Shown) ∧
        ((∃ s, plain c.markup = .ok s) ↔ ¬c.Broken)) ∧
      (∀ say, (∀ c ∈ captions r, plain c.markup = .ok (say c)) →
        ∃ bytes, Utf8.encode (drawing say r) = .ok bytes ∧
          CommandLine.inspect r false files = { ending := .exit 0, output := bytes, files }) ∧
      ((∃ c ∈ captions r, c.Broken) →
        ∃ e, (CommandLine.inspect r false files).ending = .failed (.inspect (.markup e))) := by
  have typed := printable.wellTyped
  refine ⟨fun entry mem => ?_, fun c _ => ⟨c.plain_eq_text_iff, c.exists_plain_iff_not_broken⟩,
    fun say shows => ?_, ?_⟩
  · cases typed with
    | mk _ _ filesTyped => exact fileTree_eq entry.1 (filesTyped entry.2 (List.mem_map_of_mem mem))
  · have encodable : (drawing say r).Encodable := encodable_drawing fun c mem =>
      Caption.encodable_plain (printable.encodable c mem) (shows c mem)
    refine ⟨_, Utf8.encode_eq_ok_iff.2 ⟨encodable, rfl⟩, ?_⟩
    rw [CommandLine.inspect, inspect_eq typed shows]
    rfl
  · rintro ⟨c, mem, broken⟩
    cases stopped : r.inspect.2 with
    | none =>
      have shows := exists_plain_of_inspect typed stopped c mem
      exact absurd broken (c.exists_plain_iff_not_broken.1 shows)
    | some e =>
      obtain ⟨e', rfl⟩ := exists_markup_error typed stopped
      exact ⟨e', by simp [CommandLine.inspect, stopped]⟩

end Request

section Options

/-- A request with a file with an option. -/
def withOption (key t : Text) : Request where
  protoFiles := .ofList [("a", { options := some (.ofList [(key, t)]) })]

theorem captions_withOption (key t : Text) : captions (withOption key t) =
    [.request, .targets [], .parameter [], .file "a" [], .option key t] := rfl

theorem printable_withOption {key t : Text} (keyEncodable : key.Encodable)
    (encodable : t.Encodable) : Printable (withOption key t) where
  wellTyped := by
    have typed : File.WellTyped ⟨some [], none, some [], some (List.map some []),
        some (List.map some []), some (.ofList [(key, t)])⟩ :=
      .mk Text.encodable_nil nofun nofun nofun nofun (List.forall_mem_singleton.2 encodable)
    exact .mk nofun Text.encodable_nil (List.forall_mem_singleton.2 typed)
  encodable := by
    rw [captions_withOption]
    simp [Caption.text, orDash, Text.join, keyEncodable, encodable]

/-- Brackets in a name of an option, and an option whose name has a bracket that its value closes
after a slash. -/
theorem inspect_shows_captions_options :
    (Printable (withOption "[/x]" "a\\[b]") ∧
      (∀ c ∈ captions (withOption "[/x]" "a\\[b]"), c.Shown) ∧
      (CommandLine.inspect (withOption "[/x]" "a\\[b]") false (.ofList [])).ending = .exit 0) ∧
    Printable (withOption "[/a" "b]") ∧ (∃ c ∈ captions (withOption "[/a" "b]"), c.Broken) ∧
      ∃ e, (CommandLine.inspect (withOption "[/a" "b]") false (.ofList [])).ending =
        .failed (.inspect (.markup e)) := by
  have whole : Printable (withOption "[/x]" "a\\[b]") :=
    printable_withOption (by decide) (by decide)
  have closed : Printable (withOption "[/a" "b]") := printable_withOption (by decide) (by decide)
  obtain ⟨-, shown, drawn, -⟩ := inspect_shows_captions whole (.ofList [])
  obtain ⟨-, showable, -, failed⟩ := inspect_shows_captions closed (.ofList [])
  have each : ∀ c ∈ captions (withOption "[/x]" "a\\[b]"), plain c.markup = .ok c.text := by
    rw [captions_withOption]
    simp only [List.forall_mem_cons]
    exact ⟨by cbv, by cbv, by cbv, by cbv, by cbv, List.forall_mem_nil _⟩
  have last : Caption.option "[/a" "b]" ∈ captions (withOption "[/a" "b]") := by
    simp [captions_withOption]
  have error : plain (Caption.option "[/a" "b]").markup = .error (.unmatched "/a = b" 18) := by cbv
  have broken : (Caption.option "[/a" "b]").Broken := by
    by_contra unbroken
    obtain ⟨s, shows⟩ := (showable _ last).2.2 unbroken
    cases error.symm.trans shows
  obtain ⟨bytes, -, eq⟩ := drawn Caption.text each
  exact ⟨⟨whole, fun c mem => (shown c mem).1.1 (each c mem),
    congrArg CommandLine.Outcome.ending eq⟩, closed, ⟨_, last, broken⟩, failed ⟨_, last, broken⟩⟩

/-- What the name and the value of an option have in brackets between them closes a tag that is not
open, or does not show. Of the backslashes in a value, one at the end shows twice and one before
brackets that are no tag does not show. -/
theorem options_not_literal :
    (Printable (withOption "[/a" "b]") ∧
      (CommandLine.inspect (withOption "[/a" "b]") false (.ofList [])).ending =
        .failed (.inspect (.markup (.unmatched "/a = b" 18)))) ∧
    (Printable (withOption "[a" "b]") ∧
      Caption.option "[a" "b]" ∈ captions (withOption "[a" "b]") ∧
      (Caption.option "[a" "b]").text = "option [a = b]" ∧
      plain (Caption.option "[a" "b]").markup = .ok "option ") ∧
    (Printable (withOption "a" "b\\") ∧
      Caption.option "a" "b\\" ∈ captions (withOption "a" "b\\") ∧
      (Caption.option "a" "b\\").text = "option a = b\\" ∧
      plain (Caption.option "a" "b\\").markup = .ok "option a = b\\\\") ∧
    Printable (withOption "a" "\\[B]") ∧
      Caption.option "a" "\\[B]" ∈ captions (withOption "a" "\\[B]") ∧
      (Caption.option "a" "\\[B]").text = "option a = \\[B]" ∧
      plain (Caption.option "a" "\\[B]").markup = .ok "option a = [B]" := by
  have listed (key t : Text) : Caption.option key t ∈ captions (withOption key t) := by
    simp [captions_withOption]
  exact ⟨⟨printable_withOption (by decide) (by decide), by cbv⟩,
    ⟨printable_withOption (by decide) (by decide), listed _ _, rfl, by cbv⟩,
    ⟨printable_withOption (by decide) (by decide), listed _ _, rfl, by cbv⟩,
    printable_withOption (by decide) (by decide), listed _ _, rfl, by cbv⟩

end Options

end Inspect

end SchemaPlugin
