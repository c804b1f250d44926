import CircuitFrames.Diagram.Render
import CircuitFrames.Text.Octets

/-!
# The viewer page

The document that shows a diagram: every frame is an image of its own, hidden until the script
shows it, and two buttons go back and forth between them.
-/

namespace CircuitFrames

namespace Page

/-- The script that shows one layer at a time. -/
def script : String :=
  "<script>
    let layer_index = 0;
    let layers = [];
    while (true) \x7b
        let svg = document.getElementById('layer' + layers.length);
        if (svg === null) \x7b
            break;
        \x7d
        layers.push(svg);
    \x7d

    function handleLayerIndexChange() \x7b
        if (layer_index >= layers.length) \x7b
            layer_index = layers.length - 1;
        \x7d
        if (layer_index < 0) \x7b
            layer_index = 0;
        \x7d
        let shown = layers.length === 0 ? 0 : layer_index + 1;
        document.getElementById('step').innerHTML = \"Layer: \" + shown + \"/\" + layers.length;
        for (let k = 0; k < layers.length; k++) \x7b
            layers[k].style.display = layer_index === k ? \"\" : \"none\";
        \x7d
    \x7d
    document.getElementById(\"btnPrev\").addEventListener(\"click\", ev => \x7b
        layer_index -= 1;
        handleLayerIndexChange();
    \x7d);
    document.getElementById(\"btnNext\").addEventListener(\"click\", ev => \x7b
        layer_index += 1;
        handleLayerIndexChange();
    \x7d);
    document.addEventListener('keydown', ev => \x7b
        if (ev.code == \"KeyA\" && !ev.getModifierState(\"Control\")) \x7b
            layer_index -= 1;
            ev.preventDefault();
            handleLayerIndexChange();
        \x7d else if (ev.code == \"KeyD\") \x7b
            layer_index += 1;
            ev.preventDefault();
            handleLayerIndexChange();
        \x7d
    \x7d);

    handleLayerIndexChange();
</script>"

/-- The buttons above the frames. -/
def controls : String :=
  "<div id=\"step\">Loading...</div>
<button id=\"btnPrev\">Previous Layer (hotkey: a)</button>
<button id=\"btnNext\">Next Layer (hotkey: d)</button>
"

/-- The image of the frame with a number. -/
def image (index : Nat) (f : Frame) : String :=
  "<img style=\"max-width: 95%; max-height: 95%; display: none\" id=layer" ++ toString index
    ++ " src=\"data:image/svg+xml;base64," ++ Text.base64 f.svg ++ "\" />"

/-- The line with the link to the editor. -/
def linkLine (link : String) : String :=
  "<a href=\"" ++ Svg.escapeAttribute link ++ "\">Open in Crumble</a>\n"

/-- The opening of the panel that holds the frames. -/
def panel (config : Config) : String :=
  "<div id=\"viewer\" style=\"border: 1px solid black; margin-bottom: 50px; width: "
    ++ toString config.width.toNat ++ "px; height: " ++ toString config.height.toNat
    ++ "px; resize: both; overflow: auto\">\n"

end Page

/-- The viewer page of a diagram. -/
def Diagram.page (d : Diagram) (config : Config) : String :=
  Page.controls ++ (d.editorLink.map Page.linkLine).getD "" ++ Page.panel config
    ++ "\n".intercalate (d.frames.mapIdx Page.image) ++ "\n</div>\n" ++ Page.script

end CircuitFrames
