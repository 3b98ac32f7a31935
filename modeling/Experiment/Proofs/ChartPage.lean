import Experiment.Artifact.Basic
import Experiment.Proofs.TextParts

/-!
# The page of a chart

The template has three places, and what stands around them keeps them apart: replacing a placeholder
in a page is replacing it in the text at each place. So the data are looked through for `$opts$` and
`$chart$` after they have been filled in, and the options for `$chart$`. The page is the template
with each placeholder replaced once exactly if nothing is found there, or only what is put back.
-/

namespace Experiment

namespace Chart

def pageStart : String :=
  "\n"
    ++ "<html>\n"
    ++ "  <head>\n"
    ++ "    <script type=\"text/javascript\" src=\"https://www.gstatic.com/charts/loader.js\"></script>\n"
    ++ "    <script type=\"text/javascript\">\n"
    ++ "      google.charts.load('current', \x7b'packages':['corechart']\x7d);\n"
    ++ "      google.charts.setOnLoadCallback(drawChart);\n"
    ++ "      function drawChart() \x7b\n"
    ++ "        var data = google.visualization.arrayToDataTable"

def pageEnd : String :=
  "document.getElementById('chart_div'));\n"
    ++ "        chart.draw(data, options);\n"
    ++ "      \x7d\n"
    ++ "    </script>\n"
    ++ "  </head>\n"
    ++ "  <body>\n"
    ++ "    <div id=\"chart_div\" style=\"width: 100%; height: 500px;\"></div>\n"
    ++ "  </body>\n"
    ++ "</html>\n"

/-- The page with these texts at its three places. -/
def pageWith (data options className : String) : String :=
  pageStart ++ "(" ++ data ++ ")" ++ ";\n        var options =" ++ " " ++ options ++ ";"
    ++ "\n        var chart = new google.visualization" ++ "." ++ className ++ "(" ++ pageEnd

/-- The template has a placeholder at each place. -/
theorem page_eq : page = pageWith "$data$" "$opts$" "$chart$" := by
  decide +kernel

theorem toList_pageWith (data options className : String) :
    (pageWith data options className).toList = pageStart.toList ++ '(' :: (data.toList ++ ')' ::
      (";\n        var options =".toList ++ ' ' :: (options.toList ++ ';' ::
        ("\n        var chart = new google.visualization".toList ++ '.' :: (className.toList ++
          '(' :: pageEnd.toList))))) := by
  simp only [pageWith, String.toList_append, List.append_assoc, show "(".toList = ['('] from rfl,
    show ")".toList = [')'] from rfl, show " ".toList = [' '] from rfl,
    show ";".toList = [';'] from rfl, show ".".toList = ['.'] from rfl, List.cons_append,
    List.nil_append]

theorem dollar_not_mem_pageStart : '$' ∉ pageStart.toList := by
  simp only [pageStart, String.toList_append, List.mem_append]
  decide +kernel

theorem dollar_not_mem_pageEnd : '$' ∉ pageEnd.toList := by
  decide +kernel

/-- A name between dollar signs. -/
structure IsPlaceholder (part : String) : Prop where
  dollar : '$' ∈ part.toList
  plain : ∀ c ∈ ['(', ')', ' ', ';', '.'], c ∉ part.toList

theorem isPlaceholder_data : IsPlaceholder "$data$" := ⟨by decide, by simp⟩

theorem isPlaceholder_opts : IsPlaceholder "$opts$" := ⟨by decide, by simp⟩

theorem isPlaceholder_chart : IsPlaceholder "$chart$" := ⟨by decide, by simp⟩

section Placeholder
variable {part : String} (hpart : IsPlaceholder part)
include hpart

theorem IsPlaceholder.ne_nil : part.toList ≠ [] :=
  List.ne_nil_of_mem hpart.dollar

theorem IsPlaceholder.replaced_of_not_mem (value : String) (cs : List Char) (h : '$' ∉ cs) :
    Text.Replaced part.toList value.toList cs cs :=
  .of_absent fun hsub => h (hsub.subset hpart.dollar)

theorem replace_pageWith (value data options className : String) :
    Text.replace part value (pageWith data options className) =
      pageWith (Text.replace part value data) (Text.replace part value options)
        (Text.replace part value className) := by
  have hne := hpart.ne_nil
  have hplace : ∀ s, Text.Replaced part.toList value.toList s.toList
      (Text.replace part value s).toList := Text.replaced_replace hne value
  have hstart := hpart.replaced_of_not_mem value _ dollar_not_mem_pageStart
  have hoptions := hpart.replaced_of_not_mem value ";\n        var options =".toList (by decide)
  have hclass := hpart.replaced_of_not_mem value
    "\n        var chart = new google.visualization".toList (by decide)
  have hend := hpart.replaced_of_not_mem value _ dollar_not_mem_pageEnd
  refine Text.replace_eq hne ?_
  rw [toList_pageWith, toList_pageWith]
  refine hstart.append_cons hne (hpart.plain _ (by simp)) ?_
  refine (hplace data).append_cons hne (hpart.plain _ (by simp)) ?_
  refine hoptions.append_cons hne (hpart.plain _ (by simp)) ?_
  refine (hplace options).append_cons hne (hpart.plain _ (by simp)) ?_
  refine hclass.append_cons hne (hpart.plain _ (by simp)) ?_
  exact (hplace className).append_cons hne (hpart.plain _ (by simp)) hend

theorem replace_whole (value : String) : Text.replace part value part = value :=
  Text.replace_eq hpart.ne_nil (.whole _ _)

theorem replace_of_absent (value s : String) (h : ¬ part.toList <:+: s.toList) :
    Text.replace part value s = s :=
  Text.replace_eq hpart.ne_nil (.of_absent h)

end Placeholder

/-- The page: what is filled in first is looked through for the placeholders that come later. -/
theorem render_eq (c : Chart) (key : String) :
    let options := (Json.object (titled c.options key)).compact
    c.render key = pageWith
      (Text.replace "$chart$" c.className (Text.replace "$opts$" options c.dataJson.compact))
      (Text.replace "$chart$" c.className options) c.className := by
  intro options
  have hopts : ¬ "$data$".toList <:+: "$opts$".toList := by decide +kernel
  have hchart : ¬ "$data$".toList <:+: "$chart$".toList := by decide +kernel
  have hlast : ¬ "$opts$".toList <:+: "$chart$".toList := by decide +kernel
  rw [render, page_eq, replace_pageWith isPlaceholder_data, replace_whole isPlaceholder_data,
    replace_of_absent isPlaceholder_data _ _ hopts,
    replace_of_absent isPlaceholder_data _ _ hchart]
  rw [replace_pageWith isPlaceholder_opts, replace_whole isPlaceholder_opts,
    replace_of_absent isPlaceholder_opts _ _ hlast]
  rw [replace_pageWith isPlaceholder_chart, replace_whole isPlaceholder_chart]

def between : List Char :=
  ')' :: (";\n        var options =".toList ++ [' '])

/-- Pages of one class are the same exactly if data and options come to the same text. -/
theorem pageWith_eq_iff {data options data' options' className : String} :
    pageWith data options className = pageWith data' options' className ↔
      data.toList ++ (between ++ options.toList) = data'.toList ++ (between ++ options'.toList) := by
  rw [← String.toList_inj, toList_pageWith, toList_pageWith, List.append_cancel_left_eq,
    List.cons_inj_right]
  have hassoc : ∀ (d o rest : List Char),
      d ++ ')' :: (";\n        var options =".toList ++ ' ' :: (o ++ rest)) =
        d ++ (between ++ o) ++ rest := fun d o rest => by
    simp only [between, List.append_assoc, List.cons_append, List.nil_append]
  rw [hassoc, hassoc, List.append_cancel_right_eq]

theorem brace_mem_compact (fields : List (String × Json)) :
    '\x7b' ∈ (Json.object fields).compact.toList := by
  rw [Json.compact, String.toList_ofList]
  cases fields with
  | nil => exact List.mem_cons_self
  | cons f fs => exact List.mem_cons_self

/-- Filling in the placeholders one after the other gives what filling in each once gives exactly if
the data have no placeholder of the options, and neither data nor options have one of the class, or
only get back what they had. -/
theorem pageWith_replaced_iff (data options className : String)
    (hbrace : '\x7b' ∈ options.toList) :
    pageWith (Text.replace "$chart$" className (Text.replace "$opts$" options data))
        (Text.replace "$chart$" className options) className = pageWith data options className ↔
      ¬ "$opts$".toList <:+: data.toList ∧ (className = "$chart$" ∨
        ¬ "$chart$".toList <:+: data.toList ∧ ¬ "$chart$".toList <:+: options.toList) := by
  have hne := isPlaceholder_chart.ne_nil
  have hopts := Text.replaced_replace isPlaceholder_opts.ne_nil options data
  have hdata := Text.replaced_replace hne className (Text.replace "$opts$" options data)
  have hoptions := Text.replaced_replace hne className options
  rw [pageWith_eq_iff]
  constructor
  · intro heq
    -- every placeholder of the options brings a brace, and no replacement takes one away
    have hnone : ¬ "$opts$".toList <:+: data.toList := by
      obtain ⟨n, hn, -, hcount⟩ := hopts.counts isPlaceholder_opts.ne_nil
      obtain ⟨_, -, -, hcount'⟩ := hdata.counts hne
      obtain ⟨_, -, -, hcount''⟩ := hoptions.counts hne
      have hbraces := congrArg (List.count '\x7b') heq
      simp only [List.count_append] at hbraces
      rw [hcount' _ (by decide), hcount _ (by decide), hcount'' _ (by decide)] at hbraces
      have hpos : 0 < options.toList.count '\x7b' := List.count_pos_iff.2 hbrace
      have hzero : n * options.toList.count '\x7b' = 0 := by omega
      exact hn.1 ((Nat.mul_eq_zero.1 hzero).resolve_right (Nat.ne_of_gt hpos))
    rw [replace_of_absent isPlaceholder_opts _ _ hnone] at hdata heq
    refine ⟨hnone, (hdata.eq_or_absent hne hoptions between heq).imp_left fun hclass => ?_⟩
    exact String.toList_inj.1 hclass
  · rintro ⟨hnone, hclass⟩
    rw [replace_of_absent isPlaceholder_opts _ _ hnone] at hdata ⊢
    obtain rfl | ⟨hd, ho⟩ := hclass
    · rw [hdata.eq_self, hoptions.eq_self]
    · rw [replace_of_absent isPlaceholder_chart _ _ hd,
        replace_of_absent isPlaceholder_chart _ _ ho]

theorem titled_eq (options : OrderedMap Json) (key : String) : titled options key =
    if OrderedMap.find? "title" options ∈ [none, some .null, some (.string "")] then
      OrderedMap.insert "title" (.string key) options
    else options := by
  rw [titled, hasTitle]
  split
  next s hs => by_cases h : s = "" <;> simp [hs, h]
  next hnull => simp [hnull]
  next v htext hnull hv =>
    have hne : v ≠ .null ∧ v ≠ .string "" := ⟨hnull, htext ""⟩
    simp [hv, hne]
  next hnone => simp [hnone]

/-- The bytes of a chart are a page. It is the template with the text of header and rows, that of the
options, titled with the key if they have no title, and the class at their places, exactly if the
data have no `$opts$`, and neither data nor options have `$chart$`, unless that is the class. Else
these have given way as well. -/
theorem body_of_chart (a : Artifact) (c : Chart) :
    let data := (Json.array ((c.header :: c.rows).map Json.array)).compact
    let options := (Json.object
      (if OrderedMap.find? "title" c.options ∈ [none, some .null, some (.string "")] then
        OrderedMap.insert "title" (.string a.key) c.options
      else c.options)).compact
    page = pageWith "$data$" "$opts$" "$chart$" ∧
      ∃ text : String, ({ a with kind := .chart c } : Artifact).body? = some text.toUTF8 ∧
        text = pageWith (Text.replace "$chart$" c.className (Text.replace "$opts$" options data))
          (Text.replace "$chart$" c.className options) c.className ∧
        (text = pageWith data options c.className ↔
          ¬ "$opts$".toList <:+: data.toList ∧ (c.className = "$chart$" ∨
            ¬ "$chart$".toList <:+: data.toList ∧ ¬ "$chart$".toList <:+: options.toList)) := by
  intro data options
  have hrender : c.render a.key = pageWith
      (Text.replace "$chart$" c.className (Text.replace "$opts$" options data))
      (Text.replace "$chart$" c.className options) c.className := by
    rw [render_eq, titled_eq]
    rfl
  refine ⟨page_eq, c.render a.key, rfl, hrender, ?_⟩
  rw [hrender]
  exact pageWith_replaced_iff data options c.className (brace_mem_compact _)

/-- A header that is called like a placeholder is not in the page. -/
theorem render_rewrites_data :
    let c : Chart := { header := [.string "$opts$"] }
    let options := (Json.object [("title", .string "k")]).compact
    c.dataJson.compact = "[[\"$opts$\"]]" ∧
      c.render "k" = pageWith "[[\"\x7b\"title\":\"k\"\x7d\"]]" options "LineChart" ∧
      c.render "k" ≠ pageWith c.dataJson.compact options "LineChart" := by
  intro c options
  have hdata : c.dataJson.compact = "[[\"$opts$\"]]" := by decide +kernel
  have hoptions : (Json.object (titled c.options "k")).compact = options := by decide +kernel
  have hfilled : Text.replace "$chart$" "LineChart"
      (Text.replace "$opts$" options "[[\"$opts$\"]]") = "[[\"\x7b\"title\":\"k\"\x7d\"]]" := by
    decide +kernel
  have hkept : Text.replace "$chart$" "LineChart" options = options := by decide +kernel
  have hoccurs : "$opts$".toList <:+: "[[\"$opts$\"]]".toList := by decide +kernel
  have hrender := render_eq c "k"
  have hiff := pageWith_replaced_iff c.dataJson.compact options "LineChart" (brace_mem_compact _)
  dsimp only at hrender
  rw [hoptions, hdata, hfilled, hkept] at hrender
  rw [hdata, hfilled, hkept] at hiff
  refine ⟨hdata, hrender, fun heq => ?_⟩
  rw [hrender, hdata] at heq
  exact (hiff.1 heq).1 hoccurs

end Chart

end Experiment
