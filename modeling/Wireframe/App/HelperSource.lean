/-
The classes of the helpers.

The body of a class is a list of sections with an empty line between them.

* `stateful` — a widget with a state: two classes, the second of which holds the state;
* `Helper.classes` — the classes of a helper.
-/
import Wireframe.App.Helper
import Wireframe.Dart.Outline
import Wireframe.Text.Words

namespace Wireframe.App

open Dart

/-- A class with the given sections. -/
def classOf (name parent : String) (sections : List (List Outline)) : ClassDecl where
  name := name
  parent := parent
  body := Text.joinWith [.blank] sections

/-- The line of a constructor with the given named parameters. -/
def constructorLine (name : String) (parameters : List String) : Outline :=
  .code ("const " ++ name ++ "(\x7b" ++ String.intercalate ", " parameters ++ "\x7d);")

/-- The lines of a constructor with one named parameter a line. -/
def constructorLines (name : String) (parameters : List String) : Outline :=
  .group [("const " ++ name, .round), ("", .curly)]
    (parameters.map fun parameter => .code (parameter ++ ",")) ";"

/-- The lines of fields that are set once. -/
def fieldLines (fields : List String) : List Outline :=
  fields.map fun field => .code ("final " ++ field ++ ";")

/-- A widget with a state. -/
def stateful (name stateName : String) (constructor : Outline) (fields : List String)
    (state : List (List Outline)) : List ClassDecl :=
  let creation : List Outline :=
    [override, .code ("State<" ++ name ++ "> createState() => " ++ stateName ++ "();")]
  let front : List (List Outline) :=
    if fields.isEmpty then [[constructor]] else [[constructor], fieldLines fields]
  [classOf name "StatefulWidget" (front ++ [creation]),
    classOf stateName ("State<" ++ name ++ ">") state]

/-- The parameters of a field with a hint. -/
def hintedParameters : List String :=
  ["super.key", "required this.placeholder", "required this.fontSize"]

/-- The fields of a field with a hint. -/
def hintedFields : List String := ["String placeholder", "double fontSize"]

/-- The classes of a field for text. -/
def textInputClasses (name : String) (obscured : Bool) : List ClassDecl :=
  stateful name (name ++ "State") (constructorLine name hintedParameters) hintedFields
    [["final TextEditingController _controller = TextEditingController();"],
      overriding "void dispose() " ["_controller.dispose();", "super.dispose();"],
      overriding buildHead
        [parens "return TextField"
          ["controller: _controller,",
            .code ("obscureText: " ++ (if obscured then "true" else "false") ++ ","),
            "style: TextStyle(fontSize: widget.fontSize),",
            parens "decoration: InputDecoration"
              ["hintText: widget.placeholder,", "border: const OutlineInputBorder(),",
                "isDense: true,"]]
          ";"]]

/-- The classes of a field for a date. -/
def dateInputClasses (name : String) : List ClassDecl :=
  stateful name (name ++ "State") (constructorLine name hintedParameters) hintedFields
    [["DateTime? _value;"],
      [braces "Future<void> _pick() async "
        [parens "final picked = await showDatePicker"
          ["context: context,", "initialDate: _value ?? DateTime.now(),",
            "firstDate: DateTime(1900),", "lastDate: DateTime(2100),"]
          ";",
          braces "if (picked != null) " ["setState(() => _value = picked);"]]],
      [braces "String _format(DateTime value) "
        ["final month = value.month.toString().padLeft(2, '0');",
          "final day = value.day.toString().padLeft(2, '0');",
          "return '$\x7bvalue.year\x7d-$month-$day';"]],
      overriding buildHead
        ["final value = _value;",
          parens "return InkWell"
            ["onTap: _pick,",
              parens "child: InputDecorator"
                [parens "decoration: const InputDecoration"
                  ["border: OutlineInputBorder(),", "isDense: true,",
                    "suffixIcon: Icon(Icons.calendar_today),"],
                  parens "child: Text"
                    ["value == null ? widget.placeholder : _format(value),",
                      "overflow: TextOverflow.ellipsis,",
                      "style: TextStyle(fontSize: widget.fontSize),"]]]
            ";"]]

/-- The classes of a checkbox. -/
def checkboxClasses (name : String) : List ClassDecl :=
  stateful name (name ++ "State")
    (constructorLines name
      ["super.key", "required this.text", "required this.fontSize", "this.initialValue = false"])
    ["String text", "double fontSize", "bool initialValue"]
    [["late bool _value = widget.initialValue;"],
      overriding buildHead
        [parens "return Row"
          [brackets "children: "
            [parens "Checkbox"
              ["value: _value,",
                "onChanged: (value) => setState(() => _value = value ?? false),"],
              parens "Expanded"
                [parens "child: Text"
                  ["widget.text,", "overflow: TextOverflow.ellipsis,",
                    "style: TextStyle(fontSize: widget.fontSize),"]]]]
          ";"]]

/-- The classes of a choice of one option. -/
def dropdownClasses (name : String) : List ClassDecl :=
  stateful name (name ++ "State")
    (constructorLine name ["super.key", "required this.options", "required this.fontSize"])
    ["List<String> options", "double fontSize"]
    [["late String? _value = widget.options.isEmpty ? null : widget.options.first;"],
      overriding buildHead
        [parens "return DropdownButton<String>"
          ["value: _value,", "isExpanded: true,",
            "style: TextStyle(fontSize: widget.fontSize, color: Colors.black87),",
            brackets "items: "
              ["for (final option in widget.options)",
                "  DropdownMenuItem<String>(value: option, child: Text(option)),"],
            "onChanged: (value) => setState(() => _value = value),"]
          ";"]]

/-- The class that paints an ellipse. -/
def ellipseClasses (name : String) : List ClassDecl :=
  [classOf name "CustomPainter"
    [[constructorLine name ["required this.fill", "this.stroke", "this.strokeWidth = 0"]],
      fieldLines ["Color fill", "Color? stroke", "double strokeWidth"],
      overriding "void paint(Canvas canvas, Size size) "
        ["final bounds = Offset.zero & size;", "canvas.drawOval(bounds, Paint()..color = fill);",
          "final stroke = this.stroke;",
          braces "if (stroke != null && strokeWidth > 0) "
            [parens "canvas.drawOval"
              ["bounds.deflate(strokeWidth / 2),", "Paint()", "  ..color = stroke",
                "  ..style = PaintingStyle.stroke", "  ..strokeWidth = strokeWidth,"]
              ";"]],
      [override, .code ("bool shouldRepaint(covariant " ++ name ++ " oldDelegate) =>"),
        "    oldDelegate.fill != fill ||", "    oldDelegate.stroke != stroke ||",
        "    oldDelegate.strokeWidth != strokeWidth;"]]]

/-- The classes of what opens an address by itself. -/
def autoplayClasses (name : String) : List ClassDecl :=
  stateful name (name ++ "State")
    (constructorLine name ["super.key", "required this.url", "required this.child"])
    ["String url", "Widget child"]
    [overriding "void initState() "
      ["super.initState();",
        .group [("WidgetsBinding.instance.addPostFrameCallback", .round), ("(_) ", .curly)]
          ["launchUrl(Uri.parse(widget.url), mode: LaunchMode.externalApplication);"] ";"],
      [override, "Widget build(BuildContext context) => widget.child;"]]

/-- The classes of a helper. -/
def Helper.classes (helper : Helper) : List ClassDecl :=
  match helper with
  | textInput => textInputClasses helper.className false
  | obscuredInput => textInputClasses helper.className true
  | dateInput => dateInputClasses helper.className
  | checkbox => checkboxClasses helper.className
  | dropdown => dropdownClasses helper.className
  | ellipsePainter => ellipseClasses helper.className
  | autoplay => autoplayClasses helper.className

end Wireframe.App
