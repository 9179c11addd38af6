import Reckon.Coverage
import Reckon.Datum

/-!
Reports: outputs, mentions, coverages and contexts as data, in the form in which they are printed.
-/

set_option autoImplicit false

namespace Reckon

namespace Datum

def ofOption {α : Type} (f : α → Datum) : Option α → Datum
  | some a => f a
  | none => null

def ofSpan (s : Span) : Datum :=
  list [int s.start, int s.stop]

def texts (ss : List String) : Datum :=
  list (ss.map text)

end Datum

def Score.toFloat : Score → Binary64
  | .finite units => Binary64.ofScaled units (-20)
  | .negInfinity => .infinite true

namespace Output

def fields : Output → List (String × Datum)
  | integer n | ordinal n => [("value", .int n)]
  | float x | percentage x => [("value", .float x)]
  | temperature x unit => [("value", .float x), ("unit", .ofOption .text unit)]
  | money x precision unit =>
    [("value", .float x), ("unit", .ofOption .text unit), ("precision", .text precision.label)]
  | duration period precision =>
    [("period", .record (period.byUnit.map fun (g, n) => (g.unit, .int n))),
      ("precision", .text precision.label)]
  | datetime m grain precision latent =>
    [("value", .text (IsoText.render m)), ("grain", .text grain.label),
      ("precision", .text precision.label), ("latent", .truth latent)]
  | interval a b grain precision latent =>
    [("start", .text (IsoText.render a)), ("end", .text (IsoText.render b)),
      ("grain", .text grain.label), ("precision", .text precision.label), ("latent", .truth latent)]

def report (o : Output) : Datum :=
  .record (("kind", .text o.kind.label) :: ("type", .text o.type.name) :: o.fields)

end Output

def Mention.report (m : Mention) : Datum :=
  .record
    [("byte_range", .ofSpan m.bytes), ("char_range", .ofSpan m.chars),
      ("parsing_tree_height", .int m.height), ("parsing_tree_num_nodes", .int m.size),
      ("value", m.output.report), ("probalog", .float m.score.toFloat), ("latent", .truth m.latent)]

def Coverage.fields (c : Coverage) : List (String × Datum) :=
  [("n_examples", .int c.size), ("coverage", .float c.share), ("failed", .texts c.failed),
    ("counts_by_kind", .record (c.counts.map fun (kind, n) => (kind.label, .int n)))]

def Context.Report.fields (r : Context.Report) : List (String × Datum) :=
  [("reference_time", .text r.reference), ("timezone", .text r.zoneName),
    ("default_grain", .text r.defaultGrain), ("week_start", .text r.weekStart)]

end Reckon
