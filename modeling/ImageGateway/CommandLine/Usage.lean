import ImageGateway.CommandLine.Options
import ImageGateway.Version

/-!
# What is printed instead of starting
-/

namespace ImageGateway.CommandLine

/-- The options of the gateway. -/
def usage : String :=
  "\n".intercalate [
    "Usage: image-gateway [OPTIONS]",
    "",
    "Options:",
    "      --serverPort <PORT>    Port to listen at [env: DTC_SERVER_PORT]",
    "      --targetPort <PORT>    Port of the image generation backend [env: DTC_TARGET_PORT]",
    "  -c, --config <FILE>        Configuration document",
    "      --results-dir <DIR>    Directory of the results [env: DTC_RESULTS_DIR]",
    "      --web-dir <DIR>        Directory of the web pages [env: DTC_WEB_DIR]",
    "  -h, --help                 Print help",
    "  -V, --version              Print version"]

/-- What is printed when the gateway is not to be started. -/
def Stop.text : Stop → String
  | .help => usage
  | .version => "image-gateway " ++ ImageGateway.version
  | .misuse => "error: the arguments are not understood\n\n" ++ usage

end ImageGateway.CommandLine
